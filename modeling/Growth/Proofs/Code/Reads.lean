import Growth.Proofs.Code.Result

/-! Kinds of tokens that are read as an expression of a level, or as none. What follows them decides
how reading goes on, so each level has a limit to how tightly the next token may bind. -/

namespace Growth.Code

/-- Tokens of which the first kind is known. -/
theorem kinds_cons {ts : List Token} {k : Kind} {ks : List Kind}
    (h : ts.map Token.kind = k :: ks) :
    ∃ place stop ts', ts = ⟨k, place, stop⟩ :: ts' ∧ ts'.map Token.kind = ks := by
  obtain ⟨⟨kind, place, stop⟩, ts', rfl, rfl, hts⟩ := List.map_eq_cons_iff.mp h
  exact ⟨place, stop, ts', rfl, hts⟩

theorem kinds_singleton {ts : List Token} {k : Kind} (h : ts.map Token.kind = [k]) :
    ∃ place stop, ts = [⟨k, place, stop⟩] := by
  obtain ⟨place, stop, ts', rfl, hts⟩ := kinds_cons h
  exact ⟨place, stop, by rw [List.map_eq_nil_iff.mp hts]⟩

/-- How tightly a kind binds what comes after it to what comes before it. A kind that goes on with
an expression of a level binds by one more than the rank of that level; with a tuple that ends in a
comma, whatever begins an expression goes on. -/
def Kind.binding : Kind → Nat
  | .string _ => 11
  | .mark (.opening .round) | .mark (.opening .square) | .mark .dot => 10
  | .mark (.operator op) => (Precedence.ofOperator op).rank + 1
  | .mark (.relation _) | .keyword .inKw | .keyword .notKw | .keyword .isKw => 5
  | .keyword .andKw => 3
  | .keyword .orKw => 2
  | .mark .comma | .identifier _ | .integer _ | .float _ | .keyword .trueKw | .keyword .falseKw
  | .keyword .noneKw | .mark (.opening .curly) => 1
  | _ => 0

/-- No kind binds by the number between a sign and a power. -/
theorem Kind.binding_ne (k : Kind) : k.binding ≠ 8 := by
  unfold Kind.binding
  split
  any_goals decide
  rename_i op
  cases op <;> decide

/-- The first of `r` binds by `n` at most. -/
def Stops (n : Nat) (r : List Token) : Prop :=
  ∀ t ∈ r.head?, t.kind.binding ≤ n

theorem Stops.mono {m n : Nat} {r : List Token} (h : Stops m r) (hmn : m ≤ n) : Stops n r :=
  fun t ht => Nat.le_trans (h t ht) hmn

theorem stops_cons {n : Nat} {t : Token} {r : List Token} :
    Stops n (t :: r) ↔ t.kind.binding ≤ n := by
  simp [Stops]

/-- The levels at which reading goes on with an expression that has been read. -/
def Precedence.goesOn : Precedence → Bool
  | or | and | sum | product | primary => true
  | _ => false

/-- How tightly a token may bind that follows an expression of the level. -/
def Precedence.limit (level : Precedence) : Nat :=
  if level.goesOn then level.rank + 1 else level.rank

theorem Precedence.rank_le_limit (level : Precedence) : level.rank ≤ level.limit := by
  cases level <;> decide

theorem Precedence.rank_inj {l l' : Precedence} : l.rank = l'.rank ↔ l = l' := by
  cases l <;> cases l' <;> decide

/-- How reading at a level goes on after `x`. -/
def after (level : Precedence) (x : Expression) (r : List Token) : Result Expression :=
  match level with
  | .or | .and | .sum | .product => joined level x r
  | .primary => suffixed x r
  | _ => some (x, r)

theorem binding_of_joining? {level : Precedence} {k : Kind}
    {join : Expression → Expression → Expression} (h : joining? level k = some join) :
    k.binding = level.rank + 1 := by
  unfold joining? at h
  split at h
  · rfl
  · rfl
  · split at h
    · rename_i hop
      simp [Kind.binding, Precedence.ofOperator, hop]
    · exact nomatch h
  · split at h
    · rename_i op hop
      have : op.isAdditive = false := by cases op <;> simp_all [Operator.isMultiplicative,
        Operator.isAdditive]
      simp [Kind.binding, Precedence.ofOperator, hop, this]
    · exact nomatch h
  · exact nomatch h

theorem joined_of_stops {level : Precedence} {x : Expression} {r : List Token}
    (h : Stops level.rank r) : joined level x r = some (x, r) := by
  cases r with
  | nil => exact joined_nil level x
  | cons t r =>
    rw [joined_cons]
    cases hj : joining? level t.kind with
    | none => rfl
    | some join =>
      have := binding_of_joining? hj
      have := stops_cons.mp h
      omega

theorem Kind.binding_of_isSuffix {k : Kind} (h : k.isSuffix = true) : k.binding = 10 := by
  unfold Kind.isSuffix at h
  split at h <;> first | rfl | exact nomatch h

theorem suffixed_of_stops {x : Expression} {r : List Token} (h : Stops 9 r) :
    suffixed x r = some (x, r) := by
  refine suffixed_of_not_isSuffix x fun t ht => ?_
  cases hs : t.kind.isSuffix with
  | false => rfl
  | true =>
    have := Kind.binding_of_isSuffix hs
    have := h t ht
    omega

theorem after_of_stops {level : Precedence} {x : Expression} {r : List Token}
    (h : Stops level.rank r) : after level x r = some (x, r) := by
  cases level with
  | or | and | sum | product => exact joined_of_stops h
  | primary => exact suffixed_of_stops h
  | _ => rfl

theorem after?_of_stops {n : Nat} {k : Kind} {r : List Token} (h : Stops n r) (hk : n < k.binding) :
    after? k r = none := by
  cases r with
  | nil => rfl
  | cons t r =>
    have hne : t.kind ≠ k := by
      rintro rfl
      have := stops_cons.mp h
      omega
    simp [after?, hne]

theorem compared_of_stops {r : List Token} (h : Stops 4 r) : compared r = some ([], r) := by
  rw [compared_eq]
  have hnone : comparison? r = none := by
    unfold comparison?
    split <;> first | rfl | simp [stops_cons, Kind.binding] at h
  rw [hnone]

/-! ### Levels -/

/-- The loosest level that an expression that begins with the kind can have. -/
def Kind.leading : Kind → Nat
  | .keyword .notKw => 3
  | .mark (.operator .plus) | .mark (.operator .minus) => 7
  | _ => 9

/-- Brackets that close, and the ends of statements and lines: no expression begins with them. -/
def Kind.endsExpression : Kind → Bool
  | .mark (.closing _) | .mark .semicolon | .newline | .endOfFile => true
  | _ => false

/-- The kinds `ks` are read at the level as the expression `o`, or not at all. -/
structure Reads (level : Precedence) (ks : List Kind) (o : Option Expression) : Prop where
  leads : ∃ k ks', ks = k :: ks' ∧ level.rank ≤ k.leading ∧ k.endsExpression = false
  read : ∀ ts r, ts.map Token.kind = ks → Stops level.limit r →
    read level (ts ++ r) = o.bind fun x => after level x r

/-- The next looser level. -/
def Precedence.looser : Precedence → Precedence
  | tuple | or => tuple
  | and => or
  | not => and
  | comparison => not
  | sum => comparison
  | product => sum
  | sign => product
  | power => sign
  | primary => power

theorem Precedence.rank_looser {level : Precedence} {n : Nat} (h : n < level.rank) :
    n ≤ level.looser.rank := by
  cases level <;> simp_all [Precedence.rank, Precedence.looser] <;> omega

namespace Reads

variable {level : Precedence} {ks : List Kind} {o : Option Expression}

/-- The tokens begin with one that the level allows. -/
theorem exists_cons (h : Reads level ks o) {ts : List Token} (hts : ts.map Token.kind = ks) :
    ∃ t ts', ts = t :: ts' ∧ level.rank ≤ t.kind.leading ∧ t.kind.endsExpression = false := by
  obtain ⟨k, ks', rfl, hk, hc⟩ := h.leads
  obtain ⟨t, ts', rfl, rfl, -⟩ := List.map_eq_cons_iff.mp hts
  exact ⟨t, ts', rfl, hk, hc⟩

/-- What is read where nothing goes on with it. -/
theorem read_of_stops (h : Reads level ks o) {ts r : List Token} (hts : ts.map Token.kind = ks)
    (hr : Stops level.rank r) :
    Growth.Code.read level (ts ++ r) = o.map fun x => (x, r) := by
  rw [h.read ts r hts (hr.mono level.rank_le_limit)]
  cases o with
  | none => rfl
  | some x => exact after_of_stops hr

/-- A level begins like the next looser one. -/
theorem of_read (h : Reads level ks o) {level' : Precedence} (hle : level'.rank ≤ level.rank)
    (hread : ∀ ts r, ts.map Token.kind = ks → Stops level'.limit r →
      Growth.Code.read level' (ts ++ r) = o.bind fun x => after level' x r) :
    Reads level' ks o := by
  obtain ⟨k, ks', hks, hk, hc⟩ := h.leads
  exact ⟨⟨k, ks', hks, Nat.le_trans hle hk, hc⟩, hread⟩

theorem to_power (h : Reads .primary ks o) : Reads .power ks o := by
  refine h.of_read (by decide) fun ts r hts hr => ?_
  rw [read_power, h.read_of_stops hts (hr.mono (by decide))]
  cases o with
  | none => rfl
  | some x =>
    simp only [Option.map_some, Option.bind_some]
    rw [after?_of_stops hr (by decide)]
    rfl

theorem to_sign (h : Reads .power ks o) : Reads .sign ks o := by
  refine h.of_read (by decide) fun ts r hts hr => ?_
  obtain ⟨t, ts', rfl, ht, -⟩ := h.exists_cons hts
  have hsign : sign? t.kind = none := by
    unfold sign?
    split
    · rename_i hk
      rw [hk] at ht
      exact absurd ht (by decide)
    · rename_i hk
      rw [hk] at ht
      exact absurd ht (by decide)
    · rfl
  rw [List.cons_append, read_sign, hsign]
  exact h.read _ r hts (hr.mono (by decide))

theorem to_product (h : Reads .sign ks o) : Reads .product ks o := by
  refine h.of_read (by decide) fun ts r hts hr => ?_
  rw [read_product, h.read_of_stops hts hr]
  cases o <;> rfl

theorem to_sum (h : Reads .product ks o) : Reads .sum ks o := by
  refine h.of_read (by decide) fun ts r hts hr => ?_
  rw [read_sum, h.read_of_stops hts hr]
  cases o <;> rfl

theorem to_comparison (h : Reads .sum ks o) : Reads .comparison ks o := by
  refine h.of_read (by decide) fun ts r hts hr => ?_
  rw [read_comparison, h.read_of_stops hts (hr.mono (by decide))]
  cases o with
  | none => rfl
  | some x =>
    simp only [Option.map_some, Option.bind_some]
    rw [compared_of_stops hr]
    rfl

theorem to_not (h : Reads .comparison ks o) : Reads .not ks o := by
  refine h.of_read (by decide) fun ts r hts hr => ?_
  obtain ⟨t, ts', rfl, ht, -⟩ := h.exists_cons hts
  have hnot : t.kind ≠ .keyword .notKw := by
    intro hk
    rw [hk] at ht
    exact absurd ht (by decide)
  rw [List.cons_append, read_not, after?, if_neg hnot]
  exact h.read _ r hts (hr.mono (by decide))

theorem to_and (h : Reads .not ks o) : Reads .and ks o := by
  refine h.of_read (by decide) fun ts r hts hr => ?_
  rw [read_and, h.read_of_stops hts hr]
  cases o <;> rfl

theorem to_or (h : Reads .and ks o) : Reads .or ks o := by
  refine h.of_read (by decide) fun ts r hts hr => ?_
  rw [read_or, h.read_of_stops hts hr]
  cases o <;> rfl

theorem to_tuple (h : Reads .or ks o) : Reads .tuple ks o := by
  refine h.of_read (by decide) fun ts r hts hr => ?_
  rw [read_tuple, h.read_of_stops hts (hr.mono (by decide))]
  cases o with
  | none => rfl
  | some x =>
    simp only [Option.map_some, Option.bind_some]
    rw [after?_of_stops hr (by decide)]
    rfl

theorem step (h : Reads level ks o) : Reads level.looser ks o := by
  cases level with
  | tuple => exact h
  | or => exact h.to_tuple
  | and => exact h.to_or
  | not => exact h.to_and
  | comparison => exact h.to_not
  | sum => exact h.to_comparison
  | product => exact h.to_sum
  | sign => exact h.to_product
  | power => exact h.to_sign
  | primary => exact h.to_power

/-- What is read at a level is read at every looser one. -/
theorem loosen {level level' : Precedence} (h : Reads level ks o)
    (hle : level'.rank ≤ level.rank) : Reads level' ks o := by
  by_cases heq : level' = level
  · exact heq ▸ h
  · have hne : level'.rank ≠ level.rank := fun he => heq (Precedence.rank_inj.mp he)
    have hlt : level'.rank < level.rank := by omega
    have hstep : level.looser.rank < level.rank := by
      cases level <;> first | decide | exact absurd hlt (by simp [Precedence.rank])
    exact loosen h.step (Precedence.rank_looser hlt)
termination_by level.rank

/-! ### Operators -/

variable {ks' : List Kind} {o' : Option Expression}

/-- A token joins what comes before it, read at the level, to what comes after it. -/
theorem join {k : Kind} {join : Expression → Expression → Expression}
    (hk : joining? level k = some join) (h : Reads level ks o) (h' : Reads level.operand ks' o') :
    Reads level (ks ++ k :: ks') (o.bind fun x => o'.map (join x)) := by
  obtain ⟨k₁, ks₁, rfl, hk₁, hc₁⟩ := h.leads
  have hlevel : level.limit = level.rank + 1 ∧ level.limit ≤ level.operand.rank ∧
      after level = joined level := by
    cases level <;> first | exact ⟨rfl, by decide, rfl⟩ | exact nomatch hk
  obtain ⟨hlimit, hoperand, hafter⟩ := hlevel
  refine ⟨⟨k₁, ks₁ ++ k :: ks', rfl, hk₁, hc₁⟩, fun ts r hts hr => ?_⟩
  obtain ⟨tl, tr, rfl, htl, htr⟩ := List.map_eq_append_iff.mp hts
  obtain ⟨place, stop, tr', rfl, htr'⟩ := kinds_cons htr
  have ht : Stops level.limit (⟨k, place, stop⟩ :: (tr' ++ r)) :=
    stops_cons.mpr (Nat.le_of_eq ((binding_of_joining? hk).trans hlimit.symm))
  rw [List.append_assoc, List.cons_append, h.read tl _ htl ht, hafter]
  cases o with
  | none => rfl
  | some x =>
    simp only [Option.bind_some]
    rw [joined_cons, hk]
    simp only
    rw [h'.read_of_stops htr' (hr.mono hoperand)]
    cases o' <;> rfl

/-- A sign before an operand. -/
theorem sign {k : Kind} {op : UnaryOperator} (hk : sign? k = some op) (h : Reads .sign ks o) :
    Reads .sign (k :: ks) (o.map (.unary op)) := by
  have hleads : 7 ≤ k.leading ∧ k.endsExpression = false := by
    unfold sign? at hk
    split at hk <;> first | exact ⟨by decide, rfl⟩ | exact nomatch hk
  refine ⟨⟨k, ks, rfl, hleads⟩, fun ts r hts hr => ?_⟩
  obtain ⟨place, stop, ts', rfl, hts'⟩ := kinds_cons hts
  rw [List.cons_append, read_sign, hk]
  simp only
  rw [h.read ts' r hts' hr]
  cases o <;> rfl

theorem not (h : Reads .not ks o) : Reads .not (.keyword .notKw :: ks) (o.map (.unary .not)) := by
  refine ⟨⟨_, ks, rfl, by decide, rfl⟩, fun ts r hts hr => ?_⟩
  obtain ⟨place, stop, ts', rfl, hts'⟩ := kinds_cons hts
  rw [List.cons_append, read_not, after?, if_pos rfl]
  simp only
  rw [h.read ts' r hts' hr]
  cases o <;> rfl

/-- A power takes what can be called as its base, and an exponent with or without a sign. -/
theorem power (h : Reads .primary ks o) (h' : Reads .sign ks' o') :
    Reads .power (ks ++ .mark (.operator .power) :: ks')
      (o.bind fun x => o'.map (.binary x .power)) := by
  obtain ⟨k₁, ks₁, rfl, hk₁, hc₁⟩ := h.leads
  refine ⟨⟨k₁, ks₁ ++ .mark (.operator .power) :: ks', rfl, Nat.le_trans (by decide) hk₁, hc₁⟩,
    fun ts r hts hr => ?_⟩
  obtain ⟨tl, tr, rfl, htl, htr⟩ := List.map_eq_append_iff.mp hts
  obtain ⟨place, stop, tr', rfl, htr'⟩ := kinds_cons htr
  have hstops : Stops Precedence.primary.rank
      (⟨.mark (.operator .power), place, stop⟩ :: (tr' ++ r)) := stops_cons.mpr (Nat.le_refl 9)
  have hr' : Stops Precedence.sign.rank r := by
    intro t' ht'
    have hle : t'.kind.binding ≤ 8 := hr t' ht'
    have hne := t'.kind.binding_ne
    have h7 : Precedence.sign.rank = 7 := rfl
    omega
  rw [List.append_assoc, List.cons_append, read_power, h.read_of_stops htl hstops]
  cases o with
  | none => rfl
  | some x =>
    simp only [Option.map_some, Option.bind_some]
    rw [after?, if_pos rfl]
    simp only
    rw [h'.read_of_stops htr' hr']
    cases o' <;> rfl

end Reads

/-! ### Comparisons -/

/-- The kinds `ks` are read as further operands of a comparison. -/
def ReadsCompared (ks : List Kind) (o : Option (List (Comparison × Expression))) : Prop :=
  ∀ ts r, ts.map Token.kind = ks → Stops 4 r → compared (ts ++ r) = o.map fun xs => (xs, r)

/-- The kinds of the words of a comparison. -/
def Comparison.kinds : Comparison → List Kind
  | relation r => [.mark (.relation r)]
  | member => [.keyword .inKw]
  | notMember => [.keyword .notKw, .keyword .inKw]
  | identical => [.keyword .isKw]
  | notIdentical => [.keyword .isKw, .keyword .notKw]

/-- The tokens of a comparison are read as that comparison, before an operand. -/
theorem comparison?_of_kinds {op : Comparison} {ts : List Token}
    (hts : ts.map Token.kind = op.kinds) {r : List Token}
    (hr : ∀ t ∈ r.head?, t.kind ≠ .keyword .notKw) :
    ∃ h, comparison? (ts ++ r) = some (op, ⟨r, h⟩) := by
  cases op with
  | relation _ | member =>
    obtain ⟨place, stop, rfl⟩ := kinds_singleton hts
    exact ⟨_, rfl⟩
  | notMember | notIdentical =>
    obtain ⟨place, stop, ts', rfl, hts'⟩ := kinds_cons hts
    obtain ⟨place', stop', rfl⟩ := kinds_singleton hts'
    exact ⟨_, rfl⟩
  | identical =>
    obtain ⟨place, stop, rfl⟩ := kinds_singleton hts
    refine ⟨Nat.lt_succ_self _, ?_⟩
    change comparison? (⟨.keyword .isKw, place, stop⟩ :: r) = _
    cases r with
    | nil => rfl
    | cons t r =>
      obtain ⟨kind, place', stop'⟩ := t
      cases kind with
      | keyword k => cases k <;> first | rfl | exact absurd rfl (hr _ rfl)
      | _ => rfl

theorem Comparison.stops_kinds {op : Comparison} {ts : List Token}
    (hts : ts.map Token.kind = op.kinds) (r : List Token) : Stops 5 (ts ++ r) := by
  cases op
  all_goals
    obtain ⟨place, stop, ts', rfl, -⟩ := kinds_cons hts
    exact stops_cons.mpr (Nat.le_refl 5)

theorem ReadsCompared.nil : ReadsCompared [] (some []) := by
  intro ts r hts hr
  obtain rfl := List.map_eq_nil_iff.mp hts
  exact compared_of_stops hr

theorem Kind.ne_notKw_of_leading {k : Kind} (h : 4 ≤ k.leading) : k ≠ .keyword .notKw := by
  rintro rfl
  exact absurd h (by decide)

/-- What follows a comparison begins with its words. -/
theorem ReadsCompared.cons (op : Comparison) {ks ks' : List Kind} {o : Option Expression}
    {o' : Option (List (Comparison × Expression))} (h : Reads .sum ks o)
    (h' : ReadsCompared ks' o')
    (hks' : ∀ ts r, ts.map Token.kind = ks' → Stops 4 r → Stops 5 (ts ++ r)) :
    ReadsCompared (op.kinds ++ (ks ++ ks')) (o.bind fun x => o'.map fun xs => (op, x) :: xs) := by
  intro ts r hts hr
  obtain ⟨top, trest, rfl, hto, htrest⟩ := List.map_eq_append_iff.mp hts
  obtain ⟨tx, txs, rfl, htx, htxs⟩ := List.map_eq_append_iff.mp htrest
  obtain ⟨t, tx', rfl, ht, -⟩ := h.exists_cons htx
  have hnot : ∀ t' ∈ (t :: tx' ++ txs ++ r).head?, t'.kind ≠ .keyword .notKw := by
    rintro t' ⟨⟩
    exact Kind.ne_notKw_of_leading (Nat.le_trans (by decide) ht)
  obtain ⟨_, hop⟩ := comparison?_of_kinds hto hnot
  rw [compared_eq, List.append_assoc, hop]
  simp only
  rw [List.append_assoc, h.read_of_stops htx (hks' txs r htxs hr)]
  cases o with
  | none => rfl
  | some x =>
    simp only [Option.map_some, Option.bind_some]
    rw [h' txs r htxs hr]
    cases o' <;> rfl

theorem ReadsCompared.stops_nil {ts r : List Token} (hts : ts.map Token.kind = [])
    (hr : Stops 4 r) : Stops 5 (ts ++ r) := by
  obtain rfl := List.map_eq_nil_iff.mp hts
  exact hr.mono (by decide)

theorem ReadsCompared.stops_cons {op : Comparison} {ks : List Kind} {ts : List Token}
    (hts : ts.map Token.kind = op.kinds ++ ks) (r : List Token) : Stops 5 (ts ++ r) := by
  obtain ⟨top, trest, rfl, hto, -⟩ := List.map_eq_append_iff.mp hts
  rw [List.append_assoc]
  exact Comparison.stops_kinds hto _

/-- An operand and others that are compared with it. -/
theorem Reads.comparison {ks ks' : List Kind} {o : Option Expression}
    {o' : Option (List (Comparison × Expression))} (h : Reads .sum ks o)
    (h' : ReadsCompared ks' o')
    (hks' : ∀ ts r, ts.map Token.kind = ks' → Stops 4 r → Stops 5 (ts ++ r))
    (hne : ∀ xs ∈ o', xs ≠ []) :
    Reads .comparison (ks ++ ks') (o.bind fun x => o'.map (.compare x)) := by
  obtain ⟨k₁, ks₁, rfl, hk₁, hc₁⟩ := h.leads
  refine ⟨⟨k₁, _, rfl, Nat.le_trans (by decide) hk₁, hc₁⟩, fun ts r hts hr => ?_⟩
  obtain ⟨tx, txs, rfl, htx, htxs⟩ := List.map_eq_append_iff.mp hts
  rw [read_comparison, List.append_assoc, h.read_of_stops htx (hks' txs r htxs hr)]
  cases o with
  | none => rfl
  | some x =>
    simp only [Option.map_some, Option.bind_some]
    rw [h' txs r htxs hr]
    cases o' with
    | none => rfl
    | some xs => simp [hne xs rfl, after]

end Growth.Code
