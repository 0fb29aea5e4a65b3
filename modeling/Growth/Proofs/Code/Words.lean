import Growth.Proofs.Code.Gaps
import Growth.Proofs.Code.Layout
import Growth.Proofs.Code.TokenLayout
import Growth.Proofs.Code.Written

/-! The words of a line. What stands in a line is known from the line and the brackets that are open
before it, wherever the line is. -/

namespace Growth.Code

section LineOver

variable {c : Char} {cs tail : List Char}

theorem head?_any_lineOver {p : Char → Bool} (hp : p '\n' = false) (htail : LineOver tail)
    (cs : List Char) : (cs ++ tail).head?.any p = cs.head?.any p := by
  cases cs with
  | cons c cs => rfl
  | nil =>
    obtain rfl | ⟨more, rfl⟩ := lineOver_cases htail
    · rfl
    · simpa using hp

theorem startsExponent_lineOver (htail : LineOver tail) (cs : List Char) :
    startsExponent (cs ++ tail) = startsExponent cs := by
  have hhead (ds : List Char) := head?_any_lineOver (p := Char.isDigit) rfl htail ds
  cases cs with
  | nil =>
    obtain rfl | ⟨more, rfl⟩ := lineOver_cases htail <;> rfl
  | cons c cs =>
    by_cases hsign : c = '+' ∨ c = '-'
    · rcases hsign with rfl | rfl <;> exact hhead cs
    · rw [not_or] at hsign
      unfold startsExponent
      split <;> simp_all

theorem numeral_lineOver (htail : LineOver tail) (fractional letter : Bool) (cs : List Char) :
    numeral fractional letter (cs ++ tail) = numeral fractional letter cs := by
  induction cs generalizing fractional letter with
  | nil =>
    obtain rfl | ⟨more, rfl⟩ := lineOver_cases htail
    · rfl
    · simp [numeral]
  | cons c cs ih => simp only [List.cons_append, numeral, ih, startsExponent_lineOver htail]

theorem quotation_lineOver (htail : LineOver tail) (quote : Char) (escaped : Bool)
    (cs : List Char) : quotation quote escaped (cs ++ tail) = quotation quote escaped cs := by
  induction cs generalizing escaped with
  | nil =>
    obtain rfl | ⟨more, rfl⟩ := lineOver_cases htail
    · rfl
    · simp [quotation]
  | cons c cs ih => simp only [List.cons_append, quotation, ih]

theorem isPrefixOf_lineOver (htail : LineOver tail) {sign : List Char} (hsign : '\n' ∉ sign)
    (cs : List Char) : sign.isPrefixOf (cs ++ tail) = sign.isPrefixOf cs := by
  induction sign generalizing cs with
  | nil => rfl
  | cons c sign ih =>
    rw [List.mem_cons, not_or] at hsign
    cases cs with
    | cons d cs => rw [List.cons_append, List.isPrefixOf, List.isPrefixOf, ih hsign.2]
    | nil =>
      obtain rfl | ⟨more, rfl⟩ := lineOver_cases htail
      · rfl
      · simp [List.isPrefixOf, Ne.symm hsign.1]

theorem mark?_lineOver (htail : LineOver tail) (cs : List Char) :
    mark? (cs ++ tail) = mark? cs := by
  have hsigns : ∀ entry ∈ Mark.table, '\n' ∉ entry.1 := by decide
  refine List.find?_congr fun entry hentry => ?_
  exact isPrefixOf_lineOver htail (hsigns entry hentry) cs

/-- What stands at the beginning of a text is known from the first line. -/
theorem lexeme_lineOver (htail : LineOver tail) (c : Char) (cs : List Char) :
    lexeme c (cs ++ tail) = lexeme c cs := by
  have htake : (cs ++ tail).takeWhile continuesName = cs.takeWhile continuesName := by
    induction cs with
    | nil =>
      obtain rfl | ⟨more, rfl⟩ := lineOver_cases htail
      · rfl
      · exact List.takeWhile_cons_of_neg (by decide)
    | cons c cs ih => simp only [List.cons_append, List.takeWhile_cons, ih]
  rw [lexeme, lexeme, quotation_lineOver htail, htake, ← List.cons_append,
    numeral_lineOver htail, mark?_lineOver htail, head?_any_lineOver rfl htail]

end LineOver

/-! ### Words -/

/-- The kinds of the tokens from here on, or what is wrong there, wherever it is. -/
def Scanner.kinds (s : Scanner) : Except ScanError (List Kind) :=
  match s.tokens with
  | .ok ts => .ok (ts.map Token.kind)
  | .error e => .error e.unplaced

/-- The kinds of the tokens of a text, or what is wrong with it, wherever it is. -/
def kinds (source : String) : Except ScanError (List Kind) :=
  (Scanner.ofText source).kinds

/-- The words of a line: their kinds, the brackets that are open behind them, and whether a
backslash stands there, with which the line goes on. -/
structure Words where
  kinds : List Kind
  brackets : List Bracket
  continued : Bool

def Words.cons (k : Kind) (r : Words) : Words :=
  { r with kinds := k :: r.kinds }

/-- The words of a line of which `cs` is left, where the brackets `bs` are open. A backslash at its
end counts only if the line has an end. -/
def words (ended : Bool) (bs : List Bracket) : List Char → Except ScanError Words
  | [] => .ok ⟨[], bs, false⟩
  | c :: cs =>
    if c = '#' then .ok ⟨[], bs, false⟩
    else if isInlineBlank c then words ended bs cs
    else if ended ∧ c = '\\' ∧ cs = [] then .ok ⟨[], bs, true⟩
    else
      match _ : lexeme c cs with
      | .token k chars => (words ended bs ((c :: cs).drop chars.length)).map (.cons k)
      | .sign m chars =>
        (m.brackets? bs).bind fun bs' =>
          (words ended bs' ((c :: cs).drop chars.length)).map (.cons (.mark m))
      | .badNumber chars => .error (.invalidNumber (String.ofList chars) .start)
      | .openString _ => .error (.unterminatedString .start)
      | .stray c => .error (.unexpectedCharacter c .start)
termination_by cs => cs.length
decreasing_by
  · exact Nat.lt_succ_self _
  · have := List.length_pos_iff.mpr (lexeme_token_ne_nil ‹_›)
    simp only [List.length_drop, List.length_cons]
    omega
  · have := List.length_pos_iff.mpr (lexeme_sign_ne_nil ‹_›)
    simp only [List.length_drop, List.length_cons]
    omega

theorem map_eq_ok_iff {ε α β : Type} {f : α → β} {x : Except ε α} {b : β} :
    x.map f = .ok b ↔ ∃ a, x = .ok a ∧ f a = b := by
  cases x <;> simp [Except.map]

theorem bind_eq_ok_iff {ε α β : Type} {f : α → Except ε β} {x : Except ε α} {b : β} :
    x.bind f = .ok b ↔ ∃ a, x = .ok a ∧ f a = .ok b := by
  cases x <;> simp [Except.bind]

theorem Mark.brackets_of_ok {m : Mark} {bs bs' : List Bracket} (h : m.brackets? bs = .ok bs') :
    Kind.brackets bs (.mark m) = bs' := by
  cases m with
  | closing b =>
    rw [Mark.brackets?] at h
    split at h <;> cases h
    rfl
  | _ =>
    cases h
    rfl

theorem getLast?_of_suffix {cs line : List Char} {c : Char} (h : line <:+ cs)
    (hc : line.getLast? = some c) : cs.getLast? = some c := by
  obtain ⟨front, rfl⟩ := h
  rw [List.getLast?_append, hc]
  rfl

/-- Behind words those brackets are open that the words leave open, and a line goes on only behind
a backslash. -/
theorem of_words {ended : Bool} {bs : List Bracket} {cs : List Char} {r : Words}
    (h : words ended bs cs = .ok r) : r.brackets = r.kinds.foldl Kind.brackets bs ∧
      (r.continued = true → cs.getLast? = some '\\') := by
  fun_induction words ended bs cs generalizing r with
  | case1 | case2 =>
    cases h
    exact ⟨rfl, nofun⟩
  | case3 bs c cs _ _ ih =>
    obtain ⟨hbrackets, hlast⟩ := ih h
    exact ⟨hbrackets, fun hc => getLast?_of_suffix (List.suffix_cons c cs) (hlast hc)⟩
  | case4 bs c cs _ _ hcontinued =>
    obtain ⟨-, rfl, rfl⟩ := hcontinued
    cases h
    exact ⟨rfl, fun _ => rfl⟩
  | case5 bs c cs _ _ _ k chars hlex ih =>
    obtain ⟨r, hr, rfl⟩ := map_eq_ok_iff.mp h
    obtain ⟨hbrackets, hlast⟩ := ih hr
    obtain ⟨-, -, hsign⟩ := plain_of_lexeme hlex
    have hplain : k.brackets bs = bs := Kind.brackets_eq (fun _ => hsign _) (fun _ => hsign _) bs
    refine ⟨?_, fun hc => getLast?_of_suffix (List.drop_suffix _ _) (hlast hc)⟩
    rw [Words.cons, List.foldl_cons, hplain]
    exact hbrackets
  | case6 bs c cs _ _ _ m chars hlex ih =>
    obtain ⟨bs', hbs', h⟩ := bind_eq_ok_iff.mp h
    obtain ⟨r, hr, rfl⟩ := map_eq_ok_iff.mp h
    obtain ⟨hbrackets, hlast⟩ := ih bs' hr
    refine ⟨?_, fun hc => getLast?_of_suffix (List.drop_suffix _ _) (hlast hc)⟩
    rw [Words.cons, List.foldl_cons, Mark.brackets_of_ok hbs']
    exact hbrackets
  | case7 | case8 | case9 => cases h

/-! ### The scanner in a line -/

namespace Scanner

variable {s s' : Scanner} {ks : List Kind} {bs bs' : List Bracket} {w : List Nat}
  {c : Char} {cs tail : List Char}

theorem tokens_of_error {e : ScanError} (h : s.next = (.error e, s')) : s.tokens = .error e := by
  rw [tokens]
  split <;> rename_i heq <;> rw [h] at heq <;> cases heq
  rfl

theorem kinds_of_error {e : ScanError} (h : s.next = (.error e, s')) :
    s.kinds = .error e.unplaced := by
  rw [kinds, tokens_of_error h]

theorem Leads.kinds (h : s.Leads ks s') : s.kinds = s'.kinds.map (ks ++ ·) := by
  obtain ⟨ts, rfl, htokens⟩ := h
  rw [Scanner.kinds, Scanner.kinds, htokens]
  cases s'.tokens with
  | error e => rfl
  | ok more => simp [Except.map]

theorem Leads.kinds_of_error (h : s.Leads ks s') {e : ScanError} (he : s'.kinds = .error e) :
    s.kinds = .error e := by
  rw [h.kinds, he]
  rfl

/-- The scanner finds what the words of the line are said to be, and comes to the end of the line,
or to the next line if the line goes on. -/
def Finds (s : Scanner) (w : List Nat) (tail : List Char) : Except ScanError Words → Prop
  | .error e => s.kinds = .error e
  | .ok r => ∃ s', s.Leads r.kinds s' ∧
    s'.Inside r.brackets w (if r.continued then tail.tail else tail) ∧
      s'.lineHasTokens = (s.lineHasTokens || !r.kinds.isEmpty)

theorem Finds.of_skipped {a : Scanner} {r : Except ScanError Words} (h : a.Finds w tail r)
    (hleads : s.Leads [] a) (htokens : a.lineHasTokens = s.lineHasTokens) : s.Finds w tail r := by
  cases r with
  | error e => exact hleads.kinds_of_error h
  | ok r =>
    obtain ⟨s', hleads', hinside, htokens'⟩ := h
    exact ⟨s', hleads.trans hleads', hinside, by rw [htokens', htokens]⟩

theorem Finds.of_token {a : Scanner} {r : Except ScanError Words} {k : Kind}
    (h : a.Finds w tail r) (hleads : s.Leads [k] a) (htokens : a.lineHasTokens = true) :
    s.Finds w tail (r.map (.cons k)) := by
  cases r with
  | error e => exact hleads.kinds_of_error h
  | ok r =>
    obtain ⟨s', hleads', hinside, htokens'⟩ := h
    exact ⟨s', hleads.trans hleads', hinside, by simp [htokens', htokens, Words.cons]⟩

/-- A word that stands in the line is next. -/
theorem Inside.next_word (h : s.Inside bs w (c :: cs ++ tail)) (hcs : '\n' ∉ c :: cs)
    (htail : LineOver tail) (hcomment : c ≠ '#') (hblank : ¬isInlineBlank c = true)
    (hcontinued : ¬((!tail.isEmpty) = true ∧ c = '\\' ∧ cs = [])) :
    s.next = s.takeLexeme (lexeme c cs) := by
  rw [List.mem_cons, not_or] at hcs
  rw [h.next, ← lexeme_lineOver htail]
  refine h.inLine_of_gap (Ne.symm hcs.1) ?_
  refine gap_eq_nil_of_ne (Ne.symm hcs.1) hcomment (by simpa using hblank) fun hc hhead => ?_
  cases cs with
  | nil =>
    refine hcontinued ⟨?_, hc, rfl⟩
    obtain ⟨more, rfl⟩ := List.head?_eq_some_iff.mp hhead
    rfl
  | cons d cs =>
    cases hhead
    exact hcs.2 (.head cs)

/-- The words of a line are found in it. -/
theorem Inside.finds_words (h : s.Inside bs w (cs ++ tail)) (hcs : '\n' ∉ cs)
    (htail : LineOver tail) : s.Finds w tail (words (!tail.isEmpty) bs cs) := by
  -- The cases are those of `words`; what is passed without a token leaves the rest to `ih`.
  fun_induction words (!tail.isEmpty) bs cs generalizing s with
  | case1 bs => exact ⟨s, .refl s, h, by simp⟩
  | case2 bs cs =>
    rw [List.mem_cons, not_or] at hcs
    refine ⟨s.skip ('#' :: cs), h.leads_gap ?_, h.skip, (Bool.or_false _).symm⟩
    exact gap_comment hcs.2 htail
  | case3 bs c cs _ hblank ih =>
    rw [List.mem_cons, not_or] at hcs
    have h : s.Inside bs w ([c] ++ (cs ++ tail)) := h
    exact (ih h.skip hcs.2).of_skipped (h.leads_gap (gap_blank hblank _)) rfl
  | case4 bs c cs _ _ hcontinued =>
    obtain ⟨hend, rfl, rfl⟩ := hcontinued
    obtain rfl | ⟨more, rfl⟩ := lineOver_cases htail
    · cases hend
    have h : s.Inside bs w (['\\', '\n'] ++ more) := h
    refine ⟨s.skip ['\\', '\n'], h.leads_gap (gap_continued more), h.skip, ?_⟩
    exact (Bool.or_false _).symm
  | case5 bs c cs hcomment hblank hcontinued k chars hlex ih =>
    have hnext := h.next_word hcs htail hcomment hblank hcontinued
    rw [hlex] at hnext
    have hchars := (written_of_lexeme hlex).1
    refine (ih (h.taken hchars bs) fun hmem => hcs (List.mem_of_mem_drop hmem)).of_token
      (.of_next (t := ⟨k, s.place, (s.skip chars).place.offset⟩) ?_ (plain_of_lexeme hlex).2.1) rfl
    rw [hnext, ← h.brackets]
    rfl
  | case6 bs c cs hcomment hblank hcontinued m chars hlex ih =>
    have hnext := h.next_word hcs htail hcomment hblank hcontinued
    rw [hlex] at hnext
    cases hm : m.brackets? bs with
    | error e =>
      obtain ⟨e', s', herror, rfl⟩ := takeSign_of_error (h.brackets ▸ hm) chars
      exact kinds_of_error (hnext.trans herror)
    | ok bs' =>
      have hchars := (written_of_sign hlex).1
      refine (ih bs' (h.taken hchars bs') fun hmem => hcs (List.mem_of_mem_drop hmem)).of_token
        (.of_next (t := ⟨.mark m, s.place, (s.skip chars).place.offset⟩) ?_ nofun) rfl
      exact hnext.trans (takeSign_of_ok (h.brackets ▸ hm) chars)
  | case7 bs c cs hcomment hblank hcontinued _ hlex
  | case8 bs c cs hcomment hblank hcontinued _ hlex
  | case9 bs c cs hcomment hblank hcontinued _ hlex =>
    -- What is no word is an error where it stands.
    have hnext := h.next_word hcs htail hcomment hblank hcontinued
    rw [hlex] at hnext
    exact kinds_of_error hnext

end Scanner

end Growth.Code
