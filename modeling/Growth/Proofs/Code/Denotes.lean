import Growth.Code.Printing
import Growth.Proofs.Code.Lexemes
import Growth.Proofs.Code.ReadsBracketed

/-! Texts that are scanned and read as an expression of a level, or as none. The text of a larger
expression is put together from those of its parts. -/

namespace Growth.Code

open Scanner

/-- The text `cs` is read at the level as `o` before whatever can follow it, also a point where `dot`
says so. -/
def Denotes (level : Precedence) (dot : Bool) (cs : List Char) (o : Option Expression) : Prop :=
  ∃ ks, (∀ bs, Scans (Follows dot) bs cs ks bs) ∧ Reads level ks o

theorem Scans.spaced_of_spells {cs : List Char} {k : Kind} (h : Spells cs k) {bs : List Bracket} :
    Scans Spaced bs cs [k] bs := by
  refine h.scans.mono fun rest hrest => ?_
  obtain ⟨rest', rfl⟩ := List.head?_eq_some_iff.mp hrest
  exact .cons (by decide) _ _

/-- A piece that ends in itself, before another. -/
theorem Scans.before {F : List Char → Prop} {bs bs' bs'' : List Bracket} {cs cs' : List Char}
    {ks ks' : List Kind} (h : Scans (fun _ => True) bs cs ks bs') (h' : Scans F bs' cs' ks' bs'') :
    Scans F bs (cs ++ cs') (ks ++ ks') bs'' :=
  .append h h' fun _ _ => trivial

theorem Scans.afterBlank {F : List Char → Prop} {bs bs' : List Bracket} {cs : List Char}
    {ks : List Kind} (h : Scans F bs cs ks bs') : Scans F bs (' ' :: cs) ks bs' := by
  have hblank : Scans (fun _ => True) bs [' '] [] bs := .blank
  exact hblank.before h

/-- A sign of one character, before another piece. -/
theorem Scans.cons {F F' : List Char → Prop} {bs bs' bs'' : List Bracket} {c : Char} {k : Kind}
    {cs : List Char} {ks : List Kind} (h : Scans F bs [c] [k] bs') (h' : Scans F' bs' cs ks bs'')
    (hF : ∀ rest, F' rest → F (cs ++ rest)) : Scans F' bs (c :: cs) (k :: ks) bs'' :=
  h.append h' hF

/-- A sign of one character that ends in itself, before another piece. -/
theorem Scans.consSign {F : List Char → Prop} {bs bs' bs'' : List Bracket} {c : Char} {k : Kind}
    {cs : List Char} {ks : List Kind} (h : Scans (fun _ => True) bs [c] [k] bs')
    (h' : Scans F bs' cs ks bs'') : Scans F bs (c :: cs) (k :: ks) bs'' :=
  h.before h'

/-- A sign or a word with blanks around it, between two texts. -/
theorem Scans.between {F : List Char → Prop} {bs bs' : List Bracket} {dot : Bool}
    {cs cs' sep : List Char} {ks ks' ksep : List Kind}
    (h : Scans (Follows dot) bs cs ks bs) (hsep : Scans Spaced bs sep ksep bs)
    (h' : Scans F bs cs' ks' bs') :
    Scans F bs (cs ++ ' ' :: (sep ++ ' ' :: cs')) (ks ++ (ksep ++ ks')) bs' := by
  have hright : Scans F bs (sep ++ ' ' :: cs') (ksep ++ ks') bs' :=
    .append hsep h'.afterBlank fun _ _ => rfl
  exact .append h hright.afterBlank fun _ _ => .cons (by decide) _ _

namespace Denotes

variable {level : Precedence} {dot dot' : Bool} {cs cs' : List Char} {o o' : Option Expression}

theorem loosen (h : Denotes level dot cs o) {level' : Precedence}
    (hle : level'.rank ≤ level.rank) : Denotes level' dot cs o := by
  obtain ⟨ks, hs, hr⟩ := h
  exact ⟨ks, hs, hr.loosen hle⟩

theorem withoutDot (h : Denotes level dot cs o) : Denotes level false cs o := by
  obtain ⟨ks, hs, hr⟩ := h
  exact ⟨ks, fun bs => (hs bs).mono fun _ h => h.mono dot, hr⟩

theorem of_spells {k : Kind} (h : Spells cs k) (hr : Reads .primary [k] o) :
    Denotes .primary k.takesDot cs o :=
  ⟨[k], fun _ => h.scans, hr⟩

/-- A blank may stand before an expression. -/
theorem blank (h : Denotes level dot cs o) : Denotes level dot (' ' :: cs) o := by
  obtain ⟨ks, hs, hr⟩ := h
  exact ⟨ks, fun bs => (hs bs).afterBlank, hr⟩

/-! ### Operators -/

theorem join {k : Kind} {join : Expression → Expression → Expression} {sep : List Char}
    (hk : joining? level k = some join) (hsep : ∀ bs, Scans Spaced bs sep [k] bs)
    (h : Denotes level dot cs o) (h' : Denotes level.operand dot' cs' o') :
    Denotes level dot' (cs ++ ' ' :: (sep ++ ' ' :: cs')) (o.bind fun x => o'.map (join x)) := by
  obtain ⟨ks, hs, hr⟩ := h
  obtain ⟨ks', hs', hr'⟩ := h'
  exact ⟨_, fun bs => .between (hs bs) (hsep bs) (hs' bs), hr.join hk hr'⟩

theorem power (h : Denotes .primary dot cs o) (h' : Denotes .sign dot' cs' o') :
    Denotes .power dot' (cs ++ ' ' :: (Operator.power.text.toList ++ ' ' :: cs'))
      (o.bind fun x => o'.map (.binary x .power)) := by
  obtain ⟨ks, hs, hr⟩ := h
  obtain ⟨ks', hs', hr'⟩ := h'
  exact ⟨_, fun bs => .between (hs bs) (.operator .power) (hs' bs), hr.power hr'⟩

/-- Terms joined by an operator that groups to the left. -/
theorem binary {op : Operator} (hop : op ≠ .power)
    (h : Denotes (.ofOperator op) dot cs o)
    (h' : Denotes (Precedence.ofOperator op).operand dot' cs' o') :
    Denotes (.ofOperator op) dot' (cs ++ ' ' :: (op.text.toList ++ ' ' :: cs'))
      (o.bind fun x => o'.map (.binary x op)) := by
  refine join (k := .mark (.operator op)) ?_ (fun _ => .operator op) h h'
  cases op <;> first | rfl | exact absurd rfl hop

theorem joined (connective : Connective) (h : Denotes (.ofConnective connective) dot cs o)
    (h' : Denotes (Precedence.ofConnective connective).operand dot' cs' o') :
    Denotes (.ofConnective connective) dot' (cs ++ ' ' :: (connective.text.toList ++ ' ' :: cs'))
      (o.bind fun x => o'.map (.joined x connective)) := by
  cases connective with
  | or =>
    exact join (k := .keyword .orKw) rfl
      (fun _ => .spaced_of_spells (.keyword "or" (by decide))) h h'
  | and =>
    exact join (k := .keyword .andKw) rfl
      (fun _ => .spaced_of_spells (.keyword "and" (by decide))) h h'

theorem minus (hopens : Opens cs) (h : Denotes .sign dot cs o) :
    Denotes .sign dot ('-' :: cs) (o.map (.unary .minus)) := by
  obtain ⟨ks, hs, hr⟩ := h
  exact ⟨_, fun bs => .cons .minus (hs bs) fun _ _ => hopens.head, hr.sign rfl⟩

theorem plus (hopens : Opens cs) (h : Denotes .sign dot cs o) :
    Denotes .sign dot ('+' :: cs) (o.map (.unary .plus)) := by
  obtain ⟨ks, hs, hr⟩ := h
  exact ⟨_, fun bs => .cons .plus (hs bs) fun _ _ => hopens.head, hr.sign rfl⟩

/-- A negation, before a blank or a parenthesis. -/
theorem not (hstart : ∀ rest, Follows true (cs ++ rest)) (h : Denotes .not dot cs o) :
    Denotes .not dot ("not".toList ++ cs) (o.map (.unary .not)) := by
  obtain ⟨ks, hs, hr⟩ := h
  have hword : Spells "not".toList (.keyword .notKw) := .keyword "not" (by decide)
  exact ⟨_, fun bs => .append hword.scans (hs bs) fun rest _ => hstart rest, hr.not⟩

/-! ### Brackets -/

theorem parentheses (h : Denotes .tuple dot cs o) :
    Denotes .primary true ('(' :: (cs ++ [')'])) o := by
  obtain ⟨ks, hs, hr⟩ := h
  refine ⟨_, fun bs => ?_, hr.parentheses⟩
  exact .consSign (.opening .round)
    (.append (hs _) (.closing .round) fun _ _ => .cons (by decide) _ _)

theorem emptyTuple : Denotes .primary true ['(', ')'] (some (.tuple [])) :=
  ⟨_, fun _ => .consSign (.opening .round) (.closing .round), .emptyTuple⟩

theorem emptyDict : Denotes .primary true ['\x7b', '\x7d'] (some (.dict [])) :=
  ⟨_, fun _ => .consSign (.opening .curly) (.closing .curly), .emptyDict⟩

end Denotes

/-- The text `cs` is read as items up to and including the closing bracket. -/
def DenotesItems (b : Bracket) (cs : List Char) (o : Option (List Expression)) : Prop :=
  ∃ ks, (∀ bs F, Scans F (b :: bs) cs ks bs) ∧ ReadsItems b ks o

namespace DenotesItems

variable {b : Bracket} {dot : Bool} {cs cs' : List Char} {o : Option Expression}
  {o' : Option (List Expression)}

theorem nil (b : Bracket) : DenotesItems b [b.closing] (some []) :=
  ⟨_, fun _ _ => .closing b, .nil b⟩

theorem blank (h : DenotesItems b cs o') : DenotesItems b (' ' :: cs) o' := by
  obtain ⟨ks, hs, hr⟩ := h
  exact ⟨ks, fun bs F => (hs bs F).afterBlank, hr⟩

theorem follows_closing (b : Bracket) (dot : Bool) (rest : List Char) :
    Follows dot (b.closing :: rest) :=
  .cons (by cases b <;> decide) _ _

theorem one (h : Denotes .or dot cs o) :
    DenotesItems b (cs ++ [b.closing]) (o.map fun x => [x]) := by
  obtain ⟨ks, hs, hr⟩ := h
  exact ⟨_, fun bs F => .append (hs _) (.closing b) fun _ _ => follows_closing b _ _, .one hr⟩

theorem cons (h : Denotes .or dot cs o) (h' : DenotesItems b cs' o') :
    DenotesItems b (cs ++ ',' :: cs') (o.bind fun x => o'.map fun xs => x :: xs) := by
  obtain ⟨ks, hs, hr⟩ := h
  obtain ⟨ks', hs', hr'⟩ := h'
  exact ⟨_, fun bs F => .append (hs _) (.consSign .comma (hs' bs F)) fun _ _ =>
    .cons (by decide) _ _, .cons hr hr'⟩

end DenotesItems

namespace Denotes

variable {level : Precedence} {dot dot' : Bool} {cs cs' : List Char} {o o' : Option Expression}
  {os : Option (List Expression)}

theorem list (h : DenotesItems .square cs os) :
    Denotes .primary true ('[' :: cs) (os.map .list) := by
  obtain ⟨ks, hs, hr⟩ := h
  exact ⟨_, fun bs => .consSign (.opening .square) (hs bs _), .list hr⟩

theorem singleton (h : Denotes .or dot cs o) :
    Denotes .primary true ('\x7b' :: (cs ++ ['\x7d'])) (o.map fun x => .set [x]) := by
  obtain ⟨ks, hs, hr⟩ := h
  refine ⟨_, fun bs => ?_, .singleton hr⟩
  exact .consSign (.opening .curly)
    (.append (hs _) (.closing .curly) fun _ _ => .cons (by decide) _ _)

theorem set (h : Denotes .or dot cs o) (h' : DenotesItems .curly cs' os) :
    Denotes .primary true ('\x7b' :: (cs ++ ',' :: cs'))
      (o.bind fun x => os.map fun xs => .set (x :: xs)) := by
  obtain ⟨ks, hs, hr⟩ := h
  obtain ⟨ks', hs', hr'⟩ := h'
  refine ⟨_, fun bs => ?_, .set hr hr'⟩
  exact .consSign (.opening .curly) (.append (hs _)
    (.consSign .comma (hs' bs _)) fun _ _ => .cons (by decide) _ _)

theorem call (h : Denotes .primary dot cs o) (h' : DenotesItems .round cs' os) :
    Denotes .primary true (cs ++ '(' :: cs') (o.bind fun x => os.map fun xs => .call x xs) := by
  obtain ⟨ks, hs, hr⟩ := h
  obtain ⟨ks', hs', hr'⟩ := h'
  refine ⟨_, fun bs => ?_, .call hr hr'⟩
  exact .append (hs _) (.consSign (.opening .round) (hs' bs _)) fun _ _ =>
    .cons (by decide) _ _

theorem item (h : Denotes .primary dot cs o) (h' : Denotes .tuple dot' cs' o') :
    Denotes .primary true (cs ++ '[' :: (cs' ++ [']']))
      (o.bind fun x => o'.map fun i => .item x i) := by
  obtain ⟨ks, hs, hr⟩ := h
  obtain ⟨ks', hs', hr'⟩ := h'
  refine ⟨_, fun bs => ?_, .item hr hr'⟩
  exact .append (hs _) (.consSign (.opening .square)
    (.append (hs' _) (.closing .square) fun _ _ => .cons (by decide) _ _)) fun _ _ =>
    .cons (by decide) _ _

theorem field (h : Denotes .primary true cs o) {n : String} (hn : Spells n.toList (.identifier n)) :
    Denotes .primary true (cs ++ '.' :: n.toList) (o.map fun x => .field x n) := by
  obtain ⟨ks, hs, hr⟩ := h
  refine ⟨_, fun bs => ?_, .field hr n⟩
  exact .append (hs _) (.cons .dot hn.scans fun _ _ => hn.head_of_identifier) fun _ _ =>
    .point _

end Denotes

/-! ### Entries and further items -/

/-- The text `cs` is read as the further entries of a dictionary and its closing bracket. -/
structure DenotesEntries (cs : List Char) (es : List (Expression × Expression)) : Prop where
  follows : ∀ dot rest, Follows dot (cs ++ rest)
  scans : ∃ ks, (∀ bs F, Scans F (.curly :: bs) cs ks bs) ∧ ReadsEntries ks es

namespace DenotesEntries

variable {dot dot' : Bool} {cs cs' cs'' : List Char} {x y : Expression}
  {es : List (Expression × Expression)}

theorem nil : DenotesEntries ['\x7d'] [] :=
  ⟨fun _ _ => .cons (by decide) _ _, _, fun _ _ => .closing .curly, .nil⟩

theorem scans_entry {ks ks' ks'' : List Kind} {F : List Char → Prop} {bs : List Bracket}
    (hk : Scans (Follows dot) (.curly :: bs) cs ks (.curly :: bs))
    (hv : Scans (Follows dot') (.curly :: bs) cs' ks' (.curly :: bs))
    (h : Scans F (.curly :: bs) cs'' ks'' bs) (hf : ∀ rest, Follows dot' (cs'' ++ rest)) :
    Scans F (.curly :: bs) (cs ++ ':' :: ' ' :: (cs' ++ cs''))
      (ks ++ .mark .colon :: (ks' ++ ks'')) bs := by
  refine .append hk (.consSign .colon (Scans.afterBlank ?_)) fun _ _ =>
    .cons (by decide) _ _
  exact .append hv h fun _ _ => hf _

theorem cons (hk : Denotes .or dot cs (some x)) (hv : Denotes .or dot' cs' (some y))
    (h : DenotesEntries cs'' es) :
    DenotesEntries (',' :: ' ' :: (cs ++ ':' :: ' ' :: (cs' ++ cs''))) ((x, y) :: es) := by
  obtain ⟨kk, hsk, hrk⟩ := hk
  obtain ⟨kv, hsv, hrv⟩ := hv
  obtain ⟨hf, ke, hse, hre⟩ := h
  refine ⟨fun _ _ => .cons (by decide) _ _, _, fun bs F => ?_, .cons hrk hrv hre⟩
  exact .consSign .comma
    (Scans.afterBlank (scans_entry (hsk _) (hsv _) (hse bs F) (hf _)))

theorem dict (hk : Denotes .or dot cs (some x)) (hv : Denotes .or dot' cs' (some y))
    (h : DenotesEntries cs'' es) :
    Denotes .primary true ('\x7b' :: (cs ++ ':' :: ' ' :: (cs' ++ cs'')))
      (some (.dict ((x, y) :: es))) := by
  obtain ⟨kk, hsk, hrk⟩ := hk
  obtain ⟨kv, hsv, hrv⟩ := hv
  obtain ⟨hf, ke, hse, hre⟩ := h
  refine ⟨_, fun bs => ?_, .dict hrk hrv hre⟩
  exact .consSign (.opening .curly)
    (scans_entry (hsk _) (hsv _) (hse bs _) (hf _))

end DenotesEntries

/-- The text `cs` is read as the further items of a tuple, before a closing parenthesis. -/
structure DenotesMore (cs : List Char) (xs : List Expression) : Prop where
  follows : ∀ dot rest, Follows dot (cs ++ ')' :: rest)
  scans : ∃ ks, (∀ bs, Scans (fun rest => rest.head? = some ')') bs cs ks bs) ∧ ReadsMore ks xs ∧
    (∀ k ∈ ks.head?, k = .mark .comma) ∧ (ks = [] → cs = [])

namespace DenotesMore

variable {dot : Bool} {cs cs' : List Char} {x : Expression} {xs : List Expression}

theorem nil : DenotesMore [] [] :=
  ⟨fun _ _ => .cons (by decide) _ _, [], fun _ => .nil, .nil, by simp, fun _ => rfl⟩

theorem comma : DenotesMore [','] [] :=
  ⟨fun _ _ => .cons (by decide) _ _, _, fun _ => .comma, .comma, by simp, nofun⟩

theorem cons (hx : Denotes .or dot cs (some x)) (h : DenotesMore cs' xs) :
    DenotesMore (',' :: ' ' :: (cs ++ cs')) (x :: xs) := by
  obtain ⟨kx, hsx, hrx⟩ := hx
  obtain ⟨hf, ks, hs, hr, hc, -⟩ := h
  refine ⟨fun _ _ => .cons (by decide) _ _, _, fun bs => ?_, .cons hrx hr hc, by simp, nofun⟩
  refine .consSign .comma (Scans.afterBlank (.append (hsx _) (hs _) fun rest hrest => ?_))
  obtain ⟨rest', rfl⟩ := List.head?_eq_some_iff.mp hrest
  exact hf _ _

/-- A tuple of one item has a comma after it. -/
theorem tuple (hx : Denotes .or dot cs (some x)) (h : DenotesMore (',' :: cs') xs) :
    Denotes .primary true ('(' :: (cs ++ ',' :: cs' ++ [')'])) (some (.tuple (x :: xs))) := by
  obtain ⟨kx, hsx, hrx⟩ := hx
  obtain ⟨-, ks, hs, hr, hc, hnil⟩ := h
  cases ks with
  | nil => exact nomatch hnil rfl
  | cons k ks =>
    obtain rfl := hc k rfl
    refine ⟨_, fun bs => ?_, .parentheses (.tuple hrx hr)⟩
    refine .consSign (.opening .round) (.append (.append (hsx _) (hs _) fun _ _ =>
      .cons (by decide) _ _) (.closing .round) fun _ _ => rfl)

end DenotesMore

/-! ### Comparisons -/

theorem Comparison.scans (op : Comparison) {bs : List Bracket} :
    Scans Spaced bs op.text.toList op.kinds bs := by
  cases op with
  | relation r => exact .relation r
  | member => exact .spaced_of_spells (.keyword "in" (by decide))
  | identical => exact .spaced_of_spells (.keyword "is" (by decide))
  | notMember =>
    have hnot : Scans Spaced bs "not".toList [.keyword .notKw] bs :=
      .spaced_of_spells (.keyword "not" (by decide))
    exact hnot.append (Scans.afterBlank (.spaced_of_spells (.keyword "in" (by decide)))) fun _ _ => rfl
  | notIdentical =>
    have his : Scans Spaced bs "is".toList [.keyword .isKw] bs :=
      .spaced_of_spells (.keyword "is" (by decide))
    exact his.append (Scans.afterBlank (.spaced_of_spells (.keyword "not" (by decide)))) fun _ _ => rfl

/-- The text `cs` is read as further operands of a comparison. -/
structure DenotesCompared (cs : List Char) (o : Option (List (Comparison × Expression))) : Prop where
  follows : ∀ dot rest, Follows false rest → Follows dot (cs ++ rest)
  scans : ∃ ks, (∀ bs, Scans (Follows false) bs cs ks bs) ∧ ReadsCompared ks o ∧
    ∀ ts r, ts.map Token.kind = ks → Stops 4 r → Stops 5 (ts ++ r)

namespace DenotesCompared

variable {dot : Bool} {cs cs' : List Char} {o : Option Expression}
  {o' : Option (List (Comparison × Expression))}

theorem nil : DenotesCompared [] (some []) :=
  ⟨fun dot _ h => h.mono dot, [], fun _ => .nil, .nil, fun _ _ hts hr => ReadsCompared.stops_nil hts hr⟩

theorem cons (op : Comparison) (h : Denotes .sum dot cs o) (h' : DenotesCompared cs' o') :
    DenotesCompared (' ' :: (op.text.toList ++ ' ' :: (cs ++ cs')))
      (o.bind fun x => o'.map fun xs => (op, x) :: xs) := by
  obtain ⟨ks, hs, hr⟩ := h
  obtain ⟨hf, ks', hs', hr', hstops⟩ := h'
  refine ⟨fun _ _ _ => .cons (by decide) _ _, _, fun bs => ?_, .cons op hr hr' hstops,
    fun ts r hts _ => ReadsCompared.stops_cons hts r⟩
  exact Scans.afterBlank (.append op.scans (Scans.afterBlank (.append (hs _) (hs' _) fun _ h =>
    hf _ _ h)) fun _ _ => rfl)

/-- An operand and others that are compared with it. -/
theorem comparison (h : Denotes .sum dot cs o) (h' : DenotesCompared cs' o')
    (hne : ∀ xs ∈ o', xs ≠ []) :
    Denotes .comparison false (cs ++ cs') (o.bind fun x => o'.map (.compare x)) := by
  obtain ⟨ks, hs, hr⟩ := h
  obtain ⟨hf, ks', hs', hr', hstops⟩ := h'
  exact ⟨_, fun bs => .append (hs _) (hs' _) fun _ h => hf _ _ h, hr.comparison hr' hstops hne⟩

end DenotesCompared

end Growth.Code
