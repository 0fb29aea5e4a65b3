import Growth.Proofs.Code.Scans
import Mathlib.Data.List.TakeWhile

/-! Words, numbers, strings and signs that stand in a text. What is one token alone is the same token
before every character that printed text puts behind it. -/

namespace Growth.Code

open Scanner

/-- The characters that can stand behind an expression. -/
def followers : List Char :=
  [' ', '\n', ',', ':', '(', ')', '[', ']', '}']

/-- What follows begins with a character that can stand behind an expression, or with a point where
`dot` allows it, or is empty. -/
def Follows (dot : Bool) (rest : List Char) : Prop :=
  ∀ c ∈ rest.head?, c ∈ followers ∨ dot = true ∧ c = '.'

theorem Follows.nil (dot : Bool) : Follows dot [] := nofun

theorem Follows.cons {c : Char} (h : c ∈ followers) (dot : Bool) (rest : List Char) :
    Follows dot (c :: rest) := by
  rintro c' ⟨⟩
  exact .inl h

theorem Follows.point (rest : List Char) : Follows true ('.' :: rest) := by
  rintro c ⟨⟩
  exact .inr ⟨rfl, rfl⟩

theorem Follows.mono {rest : List Char} (h : Follows false rest) (dot : Bool) :
    Follows dot rest := by
  intro c hc
  exact .inl ((h c hc).resolve_right nofun)

/-- A property of the point and of what can stand behind an expression holds of what follows. -/
theorem Follows.forall {p : Char → Bool} (hp : ('.' :: followers).all p = true) {dot : Bool}
    {rest : List Char} (h : Follows dot rest) : ∀ c ∈ rest.head?, p c = true := by
  have hp := List.all_eq_true.mp hp
  intro c hc
  rcases h c hc with hc | ⟨-, rfl⟩
  · exact hp c (.tail _ hc)
  · exact hp '.' (.head _)

/-- A point does not go on with a whole number. -/
def Kind.takesDot : Kind → Bool
  | .integer _ => false
  | _ => true

/-! ### Tokens that are known alone -/

theorem takeWhile_append_of_follows {cs rest : List Char} (h : cs.takeWhile continuesName = cs)
    {dot : Bool} (hrest : Follows dot rest) : (cs ++ rest).takeWhile continuesName = cs := by
  have hall := List.takeWhile_eq_self_iff.mp h
  rw [List.takeWhile_append_of_pos hall]
  cases rest with
  | nil => simp
  | cons c rest =>
    have hc : continuesName c = false := by
      simpa using hrest.forall (p := fun c => !continuesName c) (by decide) c rfl
    simp [hc]

theorem head?_any_append {p : Char → Bool} {cs : List Char} (h : cs.head?.any p = true)
    (rest : List Char) : (cs ++ rest).head?.any p = true := by
  cases cs with
  | nil => exact nomatch h
  | cons c cs => exact h

theorem startsExponent_append {cs : List Char} (h : startsExponent cs = true)
    (rest : List Char) : startsExponent (cs ++ rest) = true := by
  cases cs with
  | nil => exact nomatch h
  | cons c cs =>
    by_cases hsign : c = '+' ∨ c = '-'
    · rcases hsign with rfl | rfl <;> exact head?_any_append h rest
    · rw [not_or] at hsign
      rw [startsExponent] at h
      · rw [List.cons_append, startsExponent]
        · exact h
        · rintro _ ⟨⟩
          exact hsign.1 rfl
        · rintro _ ⟨⟩
          exact hsign.2 rfl
      · rintro _ ⟨⟩
        exact hsign.1 rfl
      · rintro _ ⟨⟩
        exact hsign.2 rfl

/-- A number ends before what follows. -/
theorem numeral_nil {fractional : Bool} {rest : List Char} (h : Follows fractional rest)
    (letter : Bool) : numeral fractional letter rest = ([], fractional) := by
  cases rest with
  | nil => rfl
  | cons c rest =>
    have hc : (c.isDigit || c == '_' || c == '+' || c == '-' || c == 'e' || c == 'E') = false := by
      simpa using h.forall (p := fun c => !(c.isDigit || c == '_' || c == '+' || c == '-' ||
        c == 'e' || c == 'E')) (by decide) c rfl
    simp only [Bool.or_eq_false_iff] at hc
    have hdot : (c == '.' && !fractional) = false := by
      rcases h c rfl with hc | ⟨hd, -⟩
      · have : c ≠ '.' := by
          rintro rfl
          exact absurd hc (by decide)
        simp [this]
      · simp [hd]
    simp [numeral, hc, hdot]

/-- A number takes the same characters before every text that can follow it. -/
theorem numeral_append {cs rest : List Char} {f : Bool} (hrest : Follows f rest)
    {fractional letter : Bool} (h : numeral fractional letter cs = (cs, f)) :
    numeral fractional letter (cs ++ rest) = (cs, f) := by
  induction cs generalizing fractional letter with
  | nil =>
    cases h
    exact numeral_nil hrest letter
  | cons c cs ih =>
    rw [numeral] at h
    rw [List.cons_append, numeral]
    split at h
    · rename_i hc
      have hcs : numeral fractional false cs = (cs, f) := by simpa [Prod.ext_iff] using h
      rw [if_pos hc, ih hcs]
    · rename_i hc
      rw [if_neg hc]
      split at h
      · rename_i hdot
        have hcs : numeral true false cs = (cs, f) := by simpa [Prod.ext_iff] using h
        rw [if_pos hdot, ih hcs]
      · rename_i hdot
        rw [if_neg hdot]
        split at h
        · rename_i he
          have hcs : numeral true true cs = (cs, f) := by simpa [Prod.ext_iff] using h
          simp only [Bool.and_eq_true] at he
          rw [if_pos (by simp [he.1, startsExponent_append he.2]), ih hcs]
        · cases h

theorem quotation_append {quote : Char} {escaped : Bool} {cs content : List Char}
    (h : quotation quote escaped cs = (content, true)) (rest : List Char) :
    quotation quote escaped (cs ++ rest) = (content, true) := by
  induction cs generalizing escaped content with
  | nil => exact nomatch h
  | cons c cs ih =>
    rw [quotation] at h
    rw [List.cons_append, quotation]
    split at h
    · exact nomatch h
    · rename_i hn
      rw [if_neg hn]
      split at h
      · rename_i hq
        rw [if_pos hq, ← h]
      · rename_i hq
        rw [if_neg hq]
        obtain ⟨hmore, hclosed⟩ := Prod.ext_iff.mp h
        rw [ih (Prod.ext rfl hclosed)]
        exact Prod.ext hmore rfl

/-- How the lexeme of a text is found, in four cases by its first character. -/
theorem lexeme_cases {c : Char} {cs chars : List Char} {k : Kind}
    (h : lexeme c cs = .token k chars) :
    (∃ content, (c = '"' ∨ c = '\'') ∧ quotation c false cs = (content, true) ∧
      k = .string (String.ofList content) ∧ chars = c :: content ++ [c]) ∨
    (startsName c = true ∧ chars = c :: cs.takeWhile continuesName ∧
      k = nameKind (String.ofList chars)) ∨
    (startsName c = false ∧ (c.isDigit || c == '.' && cs.head?.any Char.isDigit) = true ∧
      ∃ f, numeral false false (c :: cs) = (chars, f) ∧ numberKind? chars f = some k) := by
  unfold lexeme at h
  split at h
  · rename_i hq
    split at h
    · rename_i content hcontent
      cases h
      exact .inl ⟨content, by simpa using hq, hcontent, rfl, rfl⟩
    · exact nomatch h
  split at h
  · rename_i hs
    cases h
    exact .inr (.inl ⟨hs, rfl, rfl⟩)
  split at h
  · rename_i hs hd
    dsimp only at h
    split at h
    · rename_i hk
      cases h
      exact .inr (.inr ⟨by simpa using hs, hd, _, rfl, hk⟩)
    · exact nomatch h
  · split at h <;> exact nomatch h

theorem lexeme_of_quote {c : Char} {cs content : List Char} (hc : c = '"' ∨ c = '\'')
    (h : quotation c false cs = (content, true)) :
    lexeme c cs = .token (.string (String.ofList content)) (c :: content ++ [c]) := by
  rw [lexeme, if_pos (by simpa using hc), h]

theorem ne_quote_of_startsName {c : Char} (h : startsName c = true) :
    ¬(c == '"' || c == '\'') = true := by
  intro hc
  simp only [Bool.or_eq_true, beq_iff_eq] at hc
  rcases hc with rfl | rfl <;> exact absurd h (by decide)

theorem lexeme_of_name {c : Char} (h : startsName c = true) (cs : List Char) :
    lexeme c cs = .token (nameKind (String.ofList (c :: cs.takeWhile continuesName)))
      (c :: cs.takeWhile continuesName) := by
  rw [lexeme, if_neg (ne_quote_of_startsName h), if_pos h]

theorem startsName_of_isDigit {c : Char} (h : c.isDigit = true) : startsName c = false := by
  simp only [Char.isDigit, Bool.and_eq_true, decide_eq_true_eq, ge_iff_le,
    UInt32.le_iff_toNat_le] at h
  have hlow : c.toNat ≤ 57 := h.2
  have hne : c ≠ '_' := by
    rintro rfl
    exact absurd hlow (by decide)
  have hletter : Text.isLetter c = false := by
    unfold Text.isLetter
    delta Char.isAlpha Char.isUpper Char.isLower
    simp only [Bool.or_eq_false_iff, Bool.and_eq_false_iff, decide_eq_false_iff_not, ge_iff_le,
      UInt32.le_iff_toNat_le, Char.toNat] at hlow ⊢
    simp at hlow ⊢
    omega
  simp [startsName, hletter, hne]

theorem ne_quote_of_startsNumber {c : Char} {cs : List Char}
    (h : (c.isDigit || c == '.' && cs.head?.any Char.isDigit) = true) :
    ¬(c == '"' || c == '\'') = true := by
  intro hc
  simp only [Bool.or_eq_true, beq_iff_eq] at hc
  rcases hc with rfl | rfl <;> exact absurd h (by simp [Char.isDigit])

theorem lexeme_of_number {c : Char} {cs chars : List Char} {f : Bool} {k : Kind}
    (hs : startsName c = false) (hd : (c.isDigit || c == '.' && cs.head?.any Char.isDigit) = true)
    (hn : numeral false false (c :: cs) = (chars, f)) (hk : numberKind? chars f = some k) :
    lexeme c cs = .token k chars := by
  rw [lexeme, if_neg (ne_quote_of_startsNumber hd), if_neg (by simp [hs]), if_pos hd, hn]
  simp only [hk]

/-- A number is a float or an integer. -/
theorem numberKind?_cases {chars : List Char} {f : Bool} {k : Kind}
    (h : numberKind? chars f = some k) :
    (∃ v, k = .float v ∧ f = true) ∨ ∃ l, k = .integer l ∧ f = false := by
  unfold numberKind? at h
  dsimp only at h
  split at h
  · rename_i hf
    obtain ⟨d, -, rfl⟩ := Option.map_eq_some_iff.mp h
    exact .inl ⟨_, rfl, hf⟩
  · rename_i hf
    split at h
    · exact nomatch h
    · cases h
      exact .inr ⟨_, rfl, by simpa using hf⟩

theorem takesDot_of_numberKind? {chars : List Char} {f : Bool} {k : Kind}
    (h : numberKind? chars f = some k) : k.takesDot = f := by
  rcases numberKind?_cases h with ⟨v, rfl, rfl⟩ | ⟨l, rfl, rfl⟩ <;> rfl

/-- What is one token alone is that token before everything that can follow it. -/
theorem lexeme_append {c : Char} {cs rest : List Char} {k : Kind}
    (h : lexeme c cs = .token k (c :: cs)) (hrest : Follows k.takesDot rest) :
    lexeme c (cs ++ rest) = .token k (c :: cs) := by
  rcases lexeme_cases h with ⟨content, hc, hq, rfl, hcs⟩ | ⟨hs, hcs, rfl⟩ | ⟨hs, hd, f, hn, hk⟩
  · rw [lexeme_of_quote hc (quotation_append hq rest), hcs]
  · have htake := takeWhile_append_of_follows (List.cons.inj hcs).2.symm hrest
    rw [lexeme_of_name hs, htake]
  · rw [takesDot_of_numberKind? hk] at hrest
    refine lexeme_of_number hs ?_ (numeral_append hrest hn) hk
    simp only [Bool.or_eq_true, Bool.and_eq_true] at hd ⊢
    exact hd.imp_right fun ⟨hdot, hany⟩ => ⟨hdot, head?_any_append hany rest⟩

/-- The text `cs` is a token of the kind, all of it. -/
def Spells (cs : List Char) (k : Kind) : Prop :=
  ∃ c more, cs = c :: more ∧ lexeme c more = .token k cs

/-- A character with which a token begins; the sign of an assignment does not count. -/
def startsToken (c : Char) : Bool :=
  !startsGap c && c != '='

theorem startsToken_of_lexeme {c : Char} {cs chars : List Char} {k : Kind}
    (h : lexeme c cs = .token k chars) : startsToken c = true := by
  by_contra hc
  have hs : startsName c = false ∧ c.isDigit = false ∧ c ≠ '.' ∧ c ≠ '"' ∧ c ≠ '\'' := by
    simp only [startsToken, startsGap, isInlineBlank, Bool.and_eq_true, Bool.not_eq_true',
      Bool.or_eq_false_iff, bne_iff_ne, ne_eq, beq_eq_false_iff_ne, not_and_or, not_not] at hc
    rcases hc with (((rfl | rfl) | ((rfl | rfl) | rfl) | rfl) | rfl) | rfl <;> decide
  obtain ⟨h1, h2, h3, h4, h5⟩ := hs
  rcases lexeme_cases h with ⟨content, hc, -⟩ | ⟨hs, -⟩ | ⟨-, hd, -⟩
  · exact hc.elim h4 h5
  · rw [h1] at hs
    cases hs
  · simp [h2, h3] at hd

theorem startsGap_of_startsToken {c : Char} (h : startsToken c = true) : startsGap c = false := by
  simp only [startsToken, Bool.and_eq_true, Bool.not_eq_true'] at h
  exact h.1

theorem ne_equal_of_startsToken {c : Char} (h : startsToken c = true) : c ≠ '=' := by
  simp only [startsToken, Bool.and_eq_true, bne_iff_ne] at h
  exact h.2

/-- The text begins with a token. -/
def Opens (cs : List Char) : Prop :=
  ∃ c more, cs = c :: more ∧ startsToken c = true

theorem Opens.append {cs : List Char} (h : Opens cs) (more : List Char) : Opens (cs ++ more) := by
  obtain ⟨c, cs', rfl, hc⟩ := h
  exact ⟨c, cs' ++ more, rfl, hc⟩

theorem Opens.head {cs rest : List Char} (h : Opens cs) :
    ∀ c ∈ (cs ++ rest).head?, startsToken c = true := by
  obtain ⟨c, more, rfl, hc⟩ := h
  rintro c' ⟨⟩
  exact hc

namespace Spells

variable {cs : List Char} {k : Kind}

theorem scans (h : Spells cs k) {bs : List Bracket} :
    Scans (Follows k.takesDot) bs cs [k] bs := by
  obtain ⟨c, more, rfl, hlex⟩ := h
  refine .token (startsGap_of_startsToken (startsToken_of_lexeme hlex)) ?_
    fun rest hrest => lexeme_append hlex hrest
  · rintro rfl
    rcases lexeme_cases hlex with ⟨content, -, -, hk, -⟩ | ⟨-, -, hk⟩ | ⟨-, -, f, -, hk⟩
    · exact nomatch hk
    · unfold nameKind at hk
      split at hk <;> exact nomatch hk
    · rcases numberKind?_cases hk with ⟨v, hv, -⟩ | ⟨l, hl, -⟩
      · exact nomatch hv
      · exact nomatch hl

theorem opens (h : Spells cs k) : Opens cs := by
  obtain ⟨c, more, rfl, hlex⟩ := h
  exact ⟨c, more, rfl, startsToken_of_lexeme hlex⟩

/-- An identifier begins with a character that begins names. -/
theorem head_of_identifier {n : String} (h : Spells cs (.identifier n)) {rest : List Char} :
    ∀ c ∈ (cs ++ rest).head?, startsName c = true := by
  obtain ⟨c, more, rfl, hlex⟩ := h
  rintro c' ⟨⟩
  rcases lexeme_cases hlex with ⟨content, -, -, hk, -⟩ | ⟨hs, -⟩ | ⟨-, -, f, -, hk⟩
  · exact nomatch hk
  · exact hs
  · rcases numberKind?_cases hk with ⟨v, hv, -⟩ | ⟨l, hl, -⟩
    · exact nomatch hv
    · exact nomatch hl

theorem name {c : Char} {cs : List Char} (hc : startsName c = true)
    (hcs : ∀ d ∈ cs, continuesName d = true) :
    Spells (c :: cs) (nameKind (String.ofList (c :: cs))) := by
  refine ⟨c, cs, rfl, ?_⟩
  rw [lexeme_of_name hc, List.takeWhile_eq_self_iff.mpr hcs]

theorem keyword (word : String) {k : Keyword} (h : (word, k) ∈ Keyword.table) :
    Spells word.toList (.keyword k) := by
  simp only [Keyword.table, List.mem_cons, Prod.mk.injEq, List.not_mem_nil, or_false] at h
  rcases h with ⟨rfl, rfl⟩ | ⟨rfl, rfl⟩ | ⟨rfl, rfl⟩ | ⟨rfl, rfl⟩ | ⟨rfl, rfl⟩ | ⟨rfl, rfl⟩ |
    ⟨rfl, rfl⟩ | ⟨rfl, rfl⟩ | ⟨rfl, rfl⟩ | ⟨rfl, rfl⟩ | ⟨rfl, rfl⟩ | ⟨rfl, rfl⟩ | ⟨rfl, rfl⟩ |
    ⟨rfl, rfl⟩ | ⟨rfl, rfl⟩ | ⟨rfl, rfl⟩ | ⟨rfl, rfl⟩ | ⟨rfl, rfl⟩ <;> exact ⟨_, _, rfl, rfl⟩

end Spells

/-! ### Signs -/

/-- The character that opens a bracket. -/
def Bracket.opening : Bracket → Char
  | round => '('
  | square => '['
  | curly => '\x7b'

/-- A blank follows. -/
def Spaced (rest : List Char) : Prop :=
  rest.head? = some ' '

theorem lexeme_of_mark {c : Char} {cs chars : List Char} {m : Mark}
    (hc : (c == '"' || c == '\'' || startsName c || c.isDigit) = false)
    (hdot : c = '.' → cs.head?.any Char.isDigit = false)
    (hm : mark? (c :: cs) = some (chars, m)) : lexeme c cs = .sign m chars := by
  simp only [Bool.or_eq_false_iff] at hc
  have hd : (c.isDigit || c == '.' && cs.head?.any Char.isDigit) = false := by
    rw [hc.2, Bool.false_or, Bool.and_eq_false_imp]
    exact fun h => hdot (by simpa using h)
  rw [lexeme, if_neg (by simp [hc.1.1]), if_neg (by simp [hc.1.2]), if_neg (by simp [hd]), hm]

namespace Scans

variable {F : List Char → Prop} {bs : List Bracket}

/-- A sign before a blank. -/
theorem spacedSign {c : Char} {cs : List Char} {m : Mark}
    (hc : (startsGap c || c == '"' || c == '\'' || c == '.' || startsName c || c.isDigit) = false)
    (hm : m.brackets? bs = .ok bs)
    (h : ∀ rest, mark? (c :: cs ++ ' ' :: rest) = some (c :: cs, m)) :
    Scans Spaced bs (c :: cs) [.mark m] bs := by
  simp only [Bool.or_eq_false_iff, beq_eq_false_iff_ne] at hc
  refine sign hc.1.1.1.1.1 hm fun rest hrest => lexeme_of_mark ?_ (fun hdot => ?_) ?_
  · simp [hc]
  · exact absurd hdot hc.1.1.2
  · obtain ⟨rest', rfl⟩ := List.head?_eq_some_iff.mp hrest
    exact h rest'

theorem operator (op : Operator) : Scans Spaced bs op.text.toList [.mark (.operator op)] bs := by
  cases op <;> exact spacedSign (by decide) rfl fun _ => rfl

theorem relation (r : Relation) : Scans Spaced bs r.text.toList [.mark (.relation r)] bs := by
  cases r <;> exact spacedSign (by decide) rfl fun _ => rfl

theorem equal : Scans Spaced bs ['='] [.mark .equal] bs :=
  spacedSign (by decide) rfl fun _ => rfl

theorem augmented (op : Operator) :
    Scans Spaced bs (op.text.toList ++ ['=']) [.mark (.augmented op)] bs := by
  cases op <;> exact spacedSign (by decide) rfl fun _ => rfl

/-- A sign before an operand is not taken for a sign with which a value is updated. -/
theorem minus : Scans (fun rest => ∀ c ∈ rest.head?, startsToken c = true) bs ['-']
    [.mark (.operator .minus)] bs := by
  refine sign (by decide) rfl fun rest hrest => lexeme_of_mark (by decide) nofun ?_
  cases rest with
  | nil => rfl
  | cons c rest =>
    have hc := ne_equal_of_startsToken (hrest c rfl)
    simp [mark?, Mark.table, List.isPrefixOf, hc.symm]

theorem plus : Scans (fun rest => ∀ c ∈ rest.head?, startsToken c = true) bs ['+']
    [.mark (.operator .plus)] bs := by
  refine sign (by decide) rfl fun rest hrest => lexeme_of_mark (by decide) nofun ?_
  cases rest with
  | nil => rfl
  | cons c rest =>
    have hc := ne_equal_of_startsToken (hrest c rfl)
    simp [mark?, Mark.table, List.isPrefixOf, hc.symm]

theorem comma : Scans F bs [','] [.mark .comma] bs :=
  sign (by decide) rfl fun _ _ => lexeme_of_mark (by decide) nofun rfl

theorem colon : Scans F bs [':'] [.mark .colon] bs :=
  sign (by decide) rfl fun _ _ => lexeme_of_mark (by decide) nofun rfl

/-- A point before a name. -/
theorem dot : Scans (fun rest => ∀ c ∈ rest.head?, startsName c = true) bs ['.']
    [.mark .dot] bs := by
  refine sign (by decide) rfl fun rest hrest => lexeme_of_mark (by decide) (fun _ => ?_) ?_
  · cases rest with
    | nil => rfl
    | cons c rest =>
      have hc := hrest c rfl
      cases hd : c.isDigit with
      | false => simpa using hd
      | true =>
        rw [startsName_of_isDigit hd] at hc
        exact nomatch hc
  · rfl

theorem opening (b : Bracket) :
    Scans F bs [b.opening] [.mark (.opening b)] (b :: bs) := by
  cases b <;> exact sign (by decide) rfl fun _ _ => lexeme_of_mark (by decide) nofun rfl

theorem closing (b : Bracket) :
    Scans F (b :: bs) [b.closing] [.mark (.closing b)] bs := by
  cases b <;> exact sign (by decide) rfl fun _ _ => lexeme_of_mark (by decide) nofun rfl

end Scans

end Growth.Code
