import Growth.Proofs.Pseudo.Regroup

/-! The grammar of pseudocode, over kinds of words. It has no levels and is ambiguous. What it
derives are the words of proper trees. -/

namespace Growth.Pseudo

/-- What the grammar derives. Items are calculations with commas between them, and names are names
with commas between them; there is at least one of them. A block is one or more statements. -/
inductive Form where
  | expr | items | unit | condition | target | names | statement | block

open Form Kind in
/-- The kinds of words that each form consists of. -/
inductive Derives : Form → List Kind → Prop where
  | number : Derives expr [number]
  | name : Derives expr [name]
  | noArguments : Derives expr [name, openParen, closeParen]
  | call {a : List Kind} : Derives items a → Derives expr (name :: openParen :: a ++ [closeParen])
  | item {c : List Kind} :
    Derives expr c → Derives expr (name :: openBracket :: c ++ [closeBracket])
  | parentheses {c : List Kind} : Derives expr c → Derives expr (openParen :: c ++ [closeParen])
  | set {a : List Kind} : Derives items a → Derives expr (openBrace :: a ++ [closeBrace])
  | noItems : Derives expr [openBracket, closeBracket]
  | list {a : List Kind} : Derives items a → Derives expr (openBracket :: a ++ [closeBracket])
  | operation (op : Operator) {c c' : List Kind} :
    Derives expr c → Derives expr c' → Derives expr (c ++ operator op :: c')
  | oneItem {c : List Kind} : Derives expr c → Derives items c
  | moreItems {c a : List Kind} : Derives expr c → Derives items a → Derives items (c ++ comma :: a)
  | negation {u : List Kind} : Derives unit u → Derives unit (notKw :: u)
  | group {c : List Kind} : Derives condition c → Derives unit (openParen :: c ++ [closeParen])
  | value {c : List Kind} : Derives expr c → Derives unit c
  | relation (r : Relation) {c c' : List Kind} :
    Derives expr c → Derives expr c' → Derives unit (c ++ relation r :: c')
  | member {c c' : List Kind} : Derives expr c → Derives expr c' → Derives unit (c ++ inKw :: c')
  | notMember {c c' : List Kind} :
    Derives expr c → Derives expr c' → Derives unit (c ++ notKw :: inKw :: c')
  | oneUnit {u : List Kind} : Derives unit u → Derives condition u
  | and {c u : List Kind} :
    Derives condition c → Derives unit u → Derives condition (c ++ andKw :: u)
  | or {c u : List Kind} : Derives condition c → Derives unit u → Derives condition (c ++ orKw :: u)
  | plain : Derives target [name]
  | numbered : Derives target [name, openBracket, number, closeBracket]
  | named : Derives target [name, openBracket, name, closeBracket]
  | oneName : Derives names [name]
  | moreNames {n : List Kind} : Derives names n → Derives names (name :: comma :: n)
  | assign {t c : List Kind} :
    Derives target t → Derives expr c → Derives statement (t ++ arrow :: c)
  | branch {c b : List Kind} :
    Derives condition c → Derives block b → Derives statement (ifKw :: c ++ thenKw :: b ++ [endIf])
  | choice {c b b' : List Kind} : Derives condition c → Derives block b → Derives block b' →
    Derives statement (ifKw :: c ++ thenKw :: b ++ elseKw :: b' ++ [endIf])
  | repetition {b c : List Kind} :
    Derives block b → Derives condition c → Derives statement (repeatKw :: b ++ untilKw :: c)
  | eachValue {c b : List Kind} : Derives expr c → Derives block b →
    Derives statement (forKw :: name :: inKw :: c ++ doKw :: b ++ [endFor])
  | eachOfInterval {c c' b : List Kind} : Derives expr c → Derives expr c' → Derives block b →
    Derives statement (forKw :: name :: inKw :: c ++ toKw :: c' ++ doKw :: b ++ [endFor])
  | eachStep {c c' c'' b : List Kind} :
    Derives expr c → Derives expr c' → Derives expr c'' → Derives block b →
      Derives statement
        (forKw :: name :: inKw :: c ++ toKw :: c' ++ byKw :: c'' ++ doKw :: b ++ [endFor])
  | noParameters {b : List Kind} : Derives block b →
    Derives statement (procedureKw :: name :: openParen :: closeParen :: b ++ [endProc])
  | procedure {n b : List Kind} : Derives names n → Derives block b →
    Derives statement (procedureKw :: name :: openParen :: n ++ closeParen :: b ++ [endProc])
  | noResult : Derives statement [returnKw]
  | result {c : List Kind} : Derives expr c → Derives statement (returnKw :: c)
  | oneStatement {s : List Kind} : Derives statement s → Derives block s
  | moreStatements {s b : List Kind} :
    Derives statement s → Derives block b → Derives block (s ++ b)

/-- The kinds of words. -/
def kindsOf (ws : List Word) : List Kind :=
  ws.map Prod.fst

@[simp] theorem kindsOf_nil : kindsOf [] = [] := rfl

@[simp] theorem kindsOf_cons (w : Word) (ws : List Word) : kindsOf (w :: ws) = w.1 :: kindsOf ws :=
  rfl

@[simp] theorem kindsOf_append (ws ws' : List Word) :
    kindsOf (ws ++ ws') = kindsOf ws ++ kindsOf ws' :=
  List.map_append

theorem kindsOf_tokens (ts : List Token) : kindsOf (ts.map Token.word) = ts.map Token.kind := by
  simp [kindsOf]

/-! ### Proper trees are derived -/

mutual

theorem Calc.Proper.derives : (c : Calc) → c.Proper → Derives .expr (kindsOf c.words)
  | .number _, _ => .number
  | .name _, _ => .name
  | .call _ arguments, h => by
    by_cases hne : arguments = []
    · subst hne
      exact .noArguments
    · simpa [Calc.words] using Derives.call (Calc.AllProper.derives arguments hne h)
  | .item _ index, h => by
    simpa [Calc.words] using Derives.item (Calc.Proper.derives index h)
  | .group inner, h => by
    simpa [Calc.words] using Derives.parentheses (Calc.Proper.derives inner h)
  | .set items, h => by
    simpa [Calc.words] using Derives.set (Calc.AllProper.derives items h.1 h.2)
  | .list items, h => by
    by_cases hne : items = []
    · subst hne
      exact .noItems
    · simpa [Calc.words] using Derives.list (Calc.AllProper.derives items hne h)
  | .binary left op right, h => by
    simpa [Calc.words] using
      Derives.operation op (Calc.Proper.derives left h.1) (Calc.Proper.derives right h.2)

theorem Calc.AllProper.derives : (cs : List Calc) → cs ≠ [] → Calc.AllProper cs →
    Derives .items (kindsOf (Calc.listed cs))
  | [], hne, _ => nomatch hne rfl
  | [c], _, h => by
    simpa [Calc.listed] using Derives.oneItem (Calc.Proper.derives c h.1)
  | c :: c' :: cs, _, h => by
    have hmore := Derives.moreItems (Calc.Proper.derives c h.1)
      (Calc.AllProper.derives (c' :: cs) (List.cons_ne_nil c' cs) h.2)
    rw [Calc.listed, if_neg (by simp)]
    simpa using hmore

end

theorem Derives.condition_of_ite {u : Bool} {ks : List Kind}
    (h : Derives (if u then .unit else .condition) ks) : Derives .condition ks := by
  split at h
  · exact .oneUnit h
  · exact h

/-- A proper condition is derived, as a unit if it is one. -/
theorem Condition.Proper.derives_ite : (c : Condition) → c.Proper →
    Derives (if c.isUnit then .unit else .condition) (kindsOf c.words)
  | .value c, h => .value (Calc.Proper.derives c h)
  | .compare left op right, h => by
    have hl := Calc.Proper.derives left h.1
    have hr := Calc.Proper.derives right h.2
    show Derives .unit _
    cases op with
    | relation r => simpa [Condition.words, Comparator.words] using Derives.relation r hl hr
    | member => simpa [Condition.words, Comparator.words] using Derives.member hl hr
    | notMember => simpa [Condition.words, Comparator.words] using Derives.notMember hl hr
  | .negation inner, h => by
    have hi := Condition.Proper.derives_ite inner h.1
    rw [if_pos h.2] at hi
    exact .negation hi
  | .group inner, h => by
    have hi := (Condition.Proper.derives_ite inner h).condition_of_ite
    show Derives .unit _
    simpa [Condition.words] using Derives.group hi
  | .joined left k right, h => by
    have hl := (Condition.Proper.derives_ite left h.1).condition_of_ite
    have hr := Condition.Proper.derives_ite right h.2.1
    rw [if_pos h.2.2] at hr
    show Derives .condition _
    cases k with
    | and => simpa [Condition.words, Connective.kind] using Derives.and hl hr
    | or => simpa [Condition.words, Connective.kind] using Derives.or hl hr

theorem Condition.Proper.derives {c : Condition} (h : c.Proper) :
    Derives .condition (kindsOf c.words) :=
  (Condition.Proper.derives_ite c h).condition_of_ite

theorem Target.derives (t : Target) : Derives .target (kindsOf t.words) := by
  cases t with
  | name n => exact .plain
  | item n index =>
    cases index with
    | number l => exact .numbered
    | name i => exact .named

theorem parameterWords_derives (p : String) (ps : List String) :
    Derives .names (kindsOf (parameterWords (p :: ps))) := by
  induction ps generalizing p with
  | nil => exact .oneName
  | cons p' ps ih => exact .moreNames (ih p')

mutual

theorem Statement.Proper.derives : (s : Statement) → s.Proper →
    Derives .statement (kindsOf s.words)
  | .assign target value, h => by
    simpa [Statement.words] using Derives.assign target.derives (Calc.Proper.derives value h)
  | .branch condition body, ⟨hc, hne, hb⟩ => by
    simpa [Statement.words] using Derives.branch hc.derives
      (Statement.AllProper.derives body hne hb)
  | .choice condition body other, ⟨hc, ⟨hne, hb⟩, hne', ho⟩ => by
    simpa [Statement.words] using Derives.choice hc.derives
      (Statement.AllProper.derives body hne hb) (Statement.AllProper.derives other hne' ho)
  | .each _ (.values c) body, ⟨hs, hne, hb⟩ => by
    simpa [Statement.words, Source.words] using
      Derives.eachValue (Calc.Proper.derives c hs) (Statement.AllProper.derives body hne hb)
  | .each _ (.interval first last) body, ⟨hs, hne, hb⟩ => by
    simpa [Statement.words, Source.words] using
      Derives.eachOfInterval (Calc.Proper.derives first hs.1) (Calc.Proper.derives last hs.2)
        (Statement.AllProper.derives body hne hb)
  | .each _ (.steps first last step) body, ⟨hs, hne, hb⟩ => by
    simpa [Statement.words, Source.words] using
      Derives.eachStep (Calc.Proper.derives first hs.1) (Calc.Proper.derives last hs.2.1)
        (Calc.Proper.derives step hs.2.2) (Statement.AllProper.derives body hne hb)
  | .repetition body condition, ⟨⟨hne, hb⟩, hc⟩ => by
    simpa [Statement.words] using Derives.repetition (Statement.AllProper.derives body hne hb)
      hc.derives
  | .procedure _ [] body, ⟨hne, hb⟩ => by
    simpa [Statement.words, parameterWords] using
      Derives.noParameters (Statement.AllProper.derives body hne hb)
  | .procedure _ (p :: ps) body, ⟨hne, hb⟩ => by
    simpa [Statement.words] using Derives.procedure (parameterWords_derives p ps)
      (Statement.AllProper.derives body hne hb)
  | .result none, _ => .noResult
  | .result (some value), h => .result (Calc.Proper.derives value h)

theorem Statement.AllProper.derives : (ss : List Statement) → ss ≠ [] → Statement.AllProper ss →
    Derives .block (kindsOf (Statement.wordsOf ss))
  | [], hne, _ => nomatch hne rfl
  | [s], _, h => by
    simpa [Statement.wordsOf] using Derives.oneStatement (Statement.Proper.derives s h.1)
  | s :: s' :: ss, _, h => by
    have hmore := Derives.moreStatements (Statement.Proper.derives s h.1)
      (Statement.AllProper.derives (s' :: ss) (List.cons_ne_nil s' ss) h.2)
    rwa [Statement.wordsOf, kindsOf_append]

end

/-! ### What is derived are the words of proper trees -/

/-- The words are those of a proper tree of the form. -/
def Form.Spelled : Form → List Word → Prop
  | expr, ws => ∃ c : Calc, c.Proper ∧ ws = c.words
  | items, ws => ∃ cs, cs ≠ [] ∧ Calc.AllProper cs ∧ ws = Calc.listed cs
  | unit, ws => ∃ c : Condition, c.Proper ∧ c.isUnit = true ∧ ws = c.words
  | condition, ws => ∃ c : Condition, c.Proper ∧ ws = c.words
  | target, ws => ∃ t : Target, ws = t.words
  | names, ws => ∃ ps, ps ≠ [] ∧ ws = parameterWords ps
  | statement, ws => ∃ s : Statement, s.Proper ∧ ws = s.words
  | block, ws => ∃ ss, ss ≠ [] ∧ Statement.AllProper ss ∧ ws = Statement.wordsOf ss

/-- The words are those of tokens of the kinds `ks`. -/
def Fits (ks : List Kind) (ws : List Word) : Prop :=
  ∃ ts : List Token, ts.map Token.kind = ks ∧ ws = ts.map Token.word

namespace Fits

variable {k : Kind} {ks ks' : List Kind} {ws : List Word}

theorem nil (h : Fits [] ws) : ws = [] := by
  obtain ⟨ts, hts, rfl⟩ := h
  rw [List.map_eq_nil_iff.mp hts, List.map_nil]

theorem cons (h : Fits (k :: ks) ws) (hn : k ≠ .number := by simp) (hm : k ≠ .name := by simp) :
    ∃ ws', ws = k.word :: ws' ∧ Fits ks ws' := by
  obtain ⟨ts, hts, rfl⟩ := h
  obtain ⟨t, ts', rfl, ht, hts'⟩ := List.map_eq_cons_iff.mp hts
  exact ⟨ts'.map Token.word, by rw [List.map_cons, Token.word_of_kind ht hn hm], ts', hts', rfl⟩

theorem name (h : Fits (.name :: ks) ws) : ∃ n ws', ws = (.name, n) :: ws' ∧ Fits ks ws' := by
  obtain ⟨ts, hts, rfl⟩ := h
  obtain ⟨t, ts', rfl, ht, hts'⟩ := List.map_eq_cons_iff.mp hts
  exact ⟨t.lexeme, ts'.map Token.word, by simp [Token.word, ht], ts', hts', rfl⟩

theorem number (h : Fits (.number :: ks) ws) :
    ∃ n ws', ws = (.number, n) :: ws' ∧ Fits ks ws' := by
  obtain ⟨ts, hts, rfl⟩ := h
  obtain ⟨t, ts', rfl, ht, hts'⟩ := List.map_eq_cons_iff.mp hts
  exact ⟨t.lexeme, ts'.map Token.word, by simp [Token.word, ht], ts', hts', rfl⟩

theorem append (h : Fits (ks ++ ks') ws) :
    ∃ ws' ws'', ws = ws' ++ ws'' ∧ Fits ks ws' ∧ Fits ks' ws'' := by
  obtain ⟨ts, hts, rfl⟩ := h
  obtain ⟨ts', ts'', rfl, h', h''⟩ := List.map_eq_append_iff.mp hts
  exact ⟨_, _, List.map_append, ⟨ts', h', rfl⟩, ts'', h'', rfl⟩

/-- Two parts with a word between them. -/
theorem between (h : Fits (ks ++ k :: ks') ws) (hn : k ≠ .number := by simp)
    (hm : k ≠ .name := by simp) :
    ∃ ws' ws'', ws = ws' ++ k.word :: ws'' ∧ Fits ks ws' ∧ Fits ks' ws'' := by
  obtain ⟨ws', _, rfl, hl, hr⟩ := h.append
  obtain ⟨ws'', rfl, hr'⟩ := hr.cons hn hm
  exact ⟨ws', ws'', rfl, hl, hr'⟩

/-- One part with a word after it. -/
theorem before (h : Fits (ks ++ [k]) ws) (hn : k ≠ .number := by simp)
    (hm : k ≠ .name := by simp) : ∃ ws', ws = ws' ++ [k.word] ∧ Fits ks ws' := by
  obtain ⟨ws', _, rfl, hl, hr⟩ := h.between hn hm
  obtain rfl := hr.nil
  exact ⟨ws', rfl, hl⟩

/-- One part between two words. -/
theorem enclosed {k' : Kind} (h : Fits (k :: (ks ++ [k'])) ws) (hn : k ≠ .number := by simp)
    (hm : k ≠ .name := by simp) (hn' : k' ≠ .number := by simp) (hm' : k' ≠ .name := by simp) :
    ∃ ws', ws = k.word :: (ws' ++ [k'.word]) ∧ Fits ks ws' := by
  obtain ⟨_, rfl, h₁⟩ := h.cons hn hm
  obtain ⟨ws', rfl, h₂⟩ := h₁.before hn' hm'
  exact ⟨ws', rfl, h₂⟩

/-- A name alone. -/
theorem onlyName (h : Fits [.name] ws) : ∃ n, ws = [(.name, n)] := by
  obtain ⟨n, _, rfl, h₁⟩ := h.name
  obtain rfl := h₁.nil
  exact ⟨n, rfl⟩

end Fits

/-- Words of derived kinds are those of a proper tree. -/
theorem Derives.spelled {f : Form} {ks : List Kind} (h : Derives f ks) :
    ∀ {ws : List Word}, Fits ks ws → f.Spelled ws := by
  induction h with
  | number =>
    intro ws h
    obtain ⟨n, _, rfl, h₁⟩ := h.number
    obtain rfl := h₁.nil
    exact ⟨.number n, trivial, rfl⟩
  | name =>
    intro ws h
    obtain ⟨n, rfl⟩ := h.onlyName
    exact ⟨.name n, trivial, rfl⟩
  | noArguments =>
    intro ws h
    obtain ⟨n, _, rfl, h₁⟩ := h.name
    obtain ⟨_, rfl, h₂⟩ := h₁.cons
    obtain ⟨_, rfl, h₃⟩ := h₂.cons
    obtain rfl := h₃.nil
    exact ⟨.call n [], trivial, rfl⟩
  | call _ ih =>
    intro ws h
    obtain ⟨n, _, rfl, h₁⟩ := h.name
    obtain ⟨_, rfl, h₂⟩ := h₁.enclosed
    obtain ⟨cs, -, hcs, rfl⟩ := ih h₂
    exact ⟨.call n cs, hcs, rfl⟩
  | item _ ih =>
    intro ws h
    obtain ⟨n, _, rfl, h₁⟩ := h.name
    obtain ⟨_, rfl, h₂⟩ := h₁.enclosed
    obtain ⟨c, hc, rfl⟩ := ih h₂
    exact ⟨.item n c, hc, rfl⟩
  | parentheses _ ih =>
    intro ws h
    obtain ⟨_, rfl, h₁⟩ := h.enclosed
    obtain ⟨c, hc, rfl⟩ := ih h₁
    exact ⟨.group c, hc, rfl⟩
  | set _ ih =>
    intro ws h
    obtain ⟨_, rfl, h₁⟩ := h.enclosed
    obtain ⟨cs, hne, hcs, rfl⟩ := ih h₁
    exact ⟨.set cs, ⟨hne, hcs⟩, rfl⟩
  | noItems =>
    intro ws h
    obtain ⟨_, rfl, h₁⟩ := h.cons
    obtain ⟨_, rfl, h₂⟩ := h₁.cons
    obtain rfl := h₂.nil
    exact ⟨.list [], trivial, rfl⟩
  | list _ ih =>
    intro ws h
    obtain ⟨_, rfl, h₁⟩ := h.enclosed
    obtain ⟨cs, -, hcs, rfl⟩ := ih h₁
    exact ⟨.list cs, hcs, rfl⟩
  | operation op _ _ ih ih' =>
    intro ws h
    obtain ⟨_, _, rfl, h₁, h₁'⟩ := h.between
    obtain ⟨c, hc, rfl⟩ := ih h₁
    obtain ⟨c', hc', rfl⟩ := ih' h₁'
    exact ⟨.binary c op c', ⟨hc, hc'⟩, rfl⟩
  | oneItem _ ih =>
    intro ws h
    obtain ⟨c, hc, rfl⟩ := ih h
    exact ⟨[c], List.cons_ne_nil c [], ⟨hc, trivial⟩, by simp [Calc.listed]⟩
  | moreItems _ _ ih ih' =>
    intro ws h
    obtain ⟨_, _, rfl, h₁, h₁'⟩ := h.between
    obtain ⟨c, hc, rfl⟩ := ih h₁
    obtain ⟨cs, hne, hcs, rfl⟩ := ih' h₁'
    exact ⟨c :: cs, List.cons_ne_nil c cs, ⟨hc, hcs⟩, by simp [Calc.listed, hne]⟩
  | negation _ ih =>
    intro ws h
    obtain ⟨_, rfl, h₁⟩ := h.cons
    obtain ⟨u, hu, hunit, rfl⟩ := ih h₁
    exact ⟨.negation u, ⟨hu, hunit⟩, rfl, rfl⟩
  | group _ ih =>
    intro ws h
    obtain ⟨_, rfl, h₁⟩ := h.enclosed
    obtain ⟨c, hc, rfl⟩ := ih h₁
    exact ⟨.group c, hc, rfl, rfl⟩
  | value _ ih =>
    intro ws h
    obtain ⟨c, hc, rfl⟩ := ih h
    exact ⟨.value c, hc, rfl, rfl⟩
  | relation r _ _ ih ih' =>
    intro ws h
    obtain ⟨_, _, rfl, h₁, h₁'⟩ := h.between
    obtain ⟨c, hc, rfl⟩ := ih h₁
    obtain ⟨c', hc', rfl⟩ := ih' h₁'
    exact ⟨.compare c (.relation r) c', ⟨hc, hc'⟩, rfl, by simp [Condition.words, Comparator.words]⟩
  | member _ _ ih ih' =>
    intro ws h
    obtain ⟨_, _, rfl, h₁, h₁'⟩ := h.between
    obtain ⟨c, hc, rfl⟩ := ih h₁
    obtain ⟨c', hc', rfl⟩ := ih' h₁'
    exact ⟨.compare c .member c', ⟨hc, hc'⟩, rfl, by simp [Condition.words, Comparator.words]⟩
  | notMember _ _ ih ih' =>
    intro ws h
    obtain ⟨_, _, rfl, h₁, h₁'⟩ := h.between
    obtain ⟨_, rfl, h₂'⟩ := h₁'.cons
    obtain ⟨c, hc, rfl⟩ := ih h₁
    obtain ⟨c', hc', rfl⟩ := ih' h₂'
    exact ⟨.compare c .notMember c', ⟨hc, hc'⟩, rfl, by simp [Condition.words, Comparator.words]⟩
  | oneUnit _ ih =>
    intro ws h
    obtain ⟨u, hu, -, rfl⟩ := ih h
    exact ⟨u, hu, rfl⟩
  | and _ _ ih ih' =>
    intro ws h
    obtain ⟨_, _, rfl, h₁, h₁'⟩ := h.between
    obtain ⟨c, hc, rfl⟩ := ih h₁
    obtain ⟨u, hu, hunit, rfl⟩ := ih' h₁'
    exact ⟨.joined c .and u, ⟨hc, hu, hunit⟩, rfl⟩
  | or _ _ ih ih' =>
    intro ws h
    obtain ⟨_, _, rfl, h₁, h₁'⟩ := h.between
    obtain ⟨c, hc, rfl⟩ := ih h₁
    obtain ⟨u, hu, hunit, rfl⟩ := ih' h₁'
    exact ⟨.joined c .or u, ⟨hc, hu, hunit⟩, rfl⟩
  | plain =>
    intro ws h
    obtain ⟨n, rfl⟩ := h.onlyName
    exact ⟨.name n, rfl⟩
  | numbered =>
    intro ws h
    obtain ⟨n, _, rfl, h₁⟩ := h.name
    obtain ⟨_, rfl, h₂⟩ := h₁.cons
    obtain ⟨i, _, rfl, h₃⟩ := h₂.number
    obtain ⟨_, rfl, h₄⟩ := h₃.cons
    obtain rfl := h₄.nil
    exact ⟨.item n (.number i), rfl⟩
  | named =>
    intro ws h
    obtain ⟨n, _, rfl, h₁⟩ := h.name
    obtain ⟨_, rfl, h₂⟩ := h₁.cons
    obtain ⟨i, _, rfl, h₃⟩ := h₂.name
    obtain ⟨_, rfl, h₄⟩ := h₃.cons
    obtain rfl := h₄.nil
    exact ⟨.item n (.name i), rfl⟩
  | oneName =>
    intro ws h
    obtain ⟨n, rfl⟩ := h.onlyName
    exact ⟨[n], List.cons_ne_nil n [], rfl⟩
  | moreNames _ ih =>
    intro ws h
    obtain ⟨n, _, rfl, h₁⟩ := h.name
    obtain ⟨_, rfl, h₂⟩ := h₁.cons
    obtain ⟨ps, hne, rfl⟩ := ih h₂
    exact ⟨n :: ps, List.cons_ne_nil n ps, by simp [parameterWords, hne]⟩
  | assign _ _ ih ih' =>
    intro ws h
    obtain ⟨_, _, rfl, h₁, h₁'⟩ := h.between
    obtain ⟨t, rfl⟩ := ih h₁
    obtain ⟨c, hc, rfl⟩ := ih' h₁'
    exact ⟨.assign t c, hc, rfl⟩
  | branch _ _ ih ih' =>
    intro ws h
    obtain ⟨_, rfl, h₁⟩ := h.before
    obtain ⟨_, _, rfl, h₂, h₂'⟩ := h₁.between
    obtain ⟨_, rfl, h₃⟩ := h₂.cons
    obtain ⟨c, hc, rfl⟩ := ih h₃
    obtain ⟨b, hne, hb, rfl⟩ := ih' h₂'
    exact ⟨.branch c b, ⟨hc, hne, hb⟩, by simp [Statement.words]⟩
  | choice _ _ _ ih ih' ih'' =>
    intro ws h
    obtain ⟨_, rfl, h₁⟩ := h.before
    obtain ⟨_, _, rfl, h₂, h₂''⟩ := h₁.between
    obtain ⟨_, _, rfl, h₃, h₃'⟩ := h₂.between
    obtain ⟨_, rfl, h₄⟩ := h₃.cons
    obtain ⟨c, hc, rfl⟩ := ih h₄
    obtain ⟨b, hne, hb, rfl⟩ := ih' h₃'
    obtain ⟨b', hne', hb', rfl⟩ := ih'' h₂''
    exact ⟨.choice c b b', ⟨hc, ⟨hne, hb⟩, hne', hb'⟩, by simp [Statement.words]⟩
  | repetition _ _ ih ih' =>
    intro ws h
    obtain ⟨_, _, rfl, h₁, h₁'⟩ := h.between
    obtain ⟨_, rfl, h₂⟩ := h₁.cons
    obtain ⟨b, hne, hb, rfl⟩ := ih h₂
    obtain ⟨c, hc, rfl⟩ := ih' h₁'
    exact ⟨.repetition b c, ⟨⟨hne, hb⟩, hc⟩, by simp [Statement.words]⟩
  | eachValue _ _ ih ih' =>
    intro ws h
    obtain ⟨_, rfl, h₁⟩ := h.before
    obtain ⟨_, _, rfl, h₂, h₂'⟩ := h₁.between
    obtain ⟨_, rfl, h₃⟩ := h₂.cons
    obtain ⟨n, _, rfl, h₄⟩ := h₃.name
    obtain ⟨_, rfl, h₅⟩ := h₄.cons
    obtain ⟨c, hc, rfl⟩ := ih h₅
    obtain ⟨b, hne, hb, rfl⟩ := ih' h₂'
    exact ⟨.each n (.values c) b, ⟨hc, hne, hb⟩, by simp [Statement.words, Source.words]⟩
  | eachOfInterval _ _ _ ih ih' ih'' =>
    intro ws h
    obtain ⟨_, rfl, h₁⟩ := h.before
    obtain ⟨_, _, rfl, h₂, h₂''⟩ := h₁.between
    obtain ⟨_, _, rfl, h₃, h₃'⟩ := h₂.between
    obtain ⟨_, rfl, h₄⟩ := h₃.cons
    obtain ⟨n, _, rfl, h₅⟩ := h₄.name
    obtain ⟨_, rfl, h₆⟩ := h₅.cons
    obtain ⟨c, hc, rfl⟩ := ih h₆
    obtain ⟨c', hc', rfl⟩ := ih' h₃'
    obtain ⟨b, hne, hb, rfl⟩ := ih'' h₂''
    exact ⟨.each n (.interval c c') b, ⟨⟨hc, hc'⟩, hne, hb⟩,
      by simp [Statement.words, Source.words]⟩
  | eachStep _ _ _ _ ih ih' ih'' ih''' =>
    intro ws h
    obtain ⟨_, rfl, h₁⟩ := h.before
    obtain ⟨_, _, rfl, h₂, h₂'''⟩ := h₁.between
    obtain ⟨_, _, rfl, h₃, h₃''⟩ := h₂.between
    obtain ⟨_, _, rfl, h₄, h₄'⟩ := h₃.between
    obtain ⟨_, rfl, h₅⟩ := h₄.cons
    obtain ⟨n, _, rfl, h₆⟩ := h₅.name
    obtain ⟨_, rfl, h₇⟩ := h₆.cons
    obtain ⟨c, hc, rfl⟩ := ih h₇
    obtain ⟨c', hc', rfl⟩ := ih' h₄'
    obtain ⟨c'', hc'', rfl⟩ := ih'' h₃''
    obtain ⟨b, hne, hb, rfl⟩ := ih''' h₂'''
    exact ⟨.each n (.steps c c' c'') b, ⟨⟨hc, hc', hc''⟩, hne, hb⟩,
      by simp [Statement.words, Source.words]⟩
  | noParameters _ ih =>
    intro ws h
    obtain ⟨_, rfl, h₁⟩ := h.before
    obtain ⟨_, rfl, h₂⟩ := h₁.cons
    obtain ⟨n, _, rfl, h₃⟩ := h₂.name
    obtain ⟨_, rfl, h₄⟩ := h₃.cons
    obtain ⟨_, rfl, h₅⟩ := h₄.cons
    obtain ⟨b, hne, hb, rfl⟩ := ih h₅
    exact ⟨.procedure n [] b, ⟨hne, hb⟩, by simp [Statement.words, parameterWords]⟩
  | procedure _ _ ih ih' =>
    intro ws h
    obtain ⟨_, rfl, h₁⟩ := h.before
    obtain ⟨_, _, rfl, h₂, h₂'⟩ := h₁.between
    obtain ⟨_, rfl, h₃⟩ := h₂.cons
    obtain ⟨n, _, rfl, h₄⟩ := h₃.name
    obtain ⟨_, rfl, h₅⟩ := h₄.cons
    obtain ⟨ps, -, rfl⟩ := ih h₅
    obtain ⟨b, hne, hb, rfl⟩ := ih' h₂'
    exact ⟨.procedure n ps b, ⟨hne, hb⟩, by simp [Statement.words]⟩
  | noResult =>
    intro ws h
    obtain ⟨_, rfl, h₁⟩ := h.cons
    obtain rfl := h₁.nil
    exact ⟨.result none, trivial, rfl⟩
  | result _ ih =>
    intro ws h
    obtain ⟨_, rfl, h₁⟩ := h.cons
    obtain ⟨c, hc, rfl⟩ := ih h₁
    exact ⟨.result (some c), hc, rfl⟩
  | oneStatement _ ih =>
    intro ws h
    obtain ⟨s, hs, rfl⟩ := ih h
    exact ⟨[s], List.cons_ne_nil s [], ⟨hs, trivial⟩, by simp [Statement.wordsOf]⟩
  | moreStatements _ _ ih ih' =>
    intro ws h
    obtain ⟨_, _, rfl, h₁, h₁'⟩ := h.append
    obtain ⟨s, hs, rfl⟩ := ih h₁
    obtain ⟨ss, -, hss, rfl⟩ := ih' h₁'
    exact ⟨s :: ss, List.cons_ne_nil s ss, ⟨hs, hss⟩, rfl⟩

/-- A block is derived exactly when it is the words of proper statements. -/
theorem derives_block_iff (ts : List Token) :
    Derives .block (ts.map Token.kind) ↔
      ∃ ss, ss ≠ [] ∧ Statement.AllProper ss ∧ ts.map Token.word = Statement.wordsOf ss := by
  constructor
  · intro h
    exact h.spelled ⟨ts, rfl, rfl⟩
  · rintro ⟨ss, hne, hss, hts⟩
    rw [← kindsOf_tokens, hts]
    exact Statement.AllProper.derives ss hne hss

end Growth.Pseudo
