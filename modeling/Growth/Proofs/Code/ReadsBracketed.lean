import Growth.Proofs.Code.Reads

/-! Kinds of tokens that are read as literals, as names, as what stands in brackets, and as calls,
indices and fields. -/

namespace Growth.Code

open Outcome

theorem Stops.zero_of_endsExpression {k : Kind} (h : k.endsExpression = true) {place : Place} {stop : Nat}
    {r : List Token} (n : Nat) : Stops n (⟨k, place, stop⟩ :: r) := by
  unfold Kind.endsExpression at h
  split at h <;> first | exact stops_cons.mpr (Nat.zero_le n) | exact nomatch h

theorem Stops.of_isSuffix {k : Kind} (h : k.isSuffix = true) {place : Place} {stop : Nat}
    {r : List Token} : Stops Precedence.primary.limit (⟨k, place, stop⟩ :: r) :=
  stops_cons.mpr (Nat.le_of_eq (Kind.binding_of_isSuffix h))

theorem Stops.comma {place : Place} {stop : Nat} {r : List Token} :
    Stops Precedence.or.rank (⟨.mark .comma, place, stop⟩ :: r) :=
  stops_cons.mpr (Nat.le_refl 1)

theorem Stops.colon {place : Place} {stop : Nat} {r : List Token} (n : Nat) :
    Stops n (⟨.mark .colon, place, stop⟩ :: r) :=
  stops_cons.mpr (Nat.zero_le n)

namespace Reads

variable {level : Precedence} {ks ks' : List Kind} {o o' : Option Expression}

/-- An expression does not begin with a bracket that closes. -/
theorem head_ne_closing (h : Reads level ks o) {ts : List Token} (hts : ts.map Token.kind = ks)
    (b : Bracket) (r : List Token) :
    ∀ t ∈ (ts ++ r).head?, t.kind ≠ .mark (.closing b) := by
  obtain ⟨t, ts', rfl, -, hc⟩ := h.exists_cons hts
  rintro t' ⟨⟩ hk
  rw [hk] at hc
  exact nomatch hc

/-- Something read as an atom can be called. -/
theorem of_atom {k : Kind} (hk : 9 ≤ k.leading) (hc : k.endsExpression = false)
    (h : ∀ ts r, ts.map Token.kind = k :: ks → Stops 10 r →
      (readAtom (ts ++ r)).value? = o.map fun x => (x, r)) : Reads .primary (k :: ks) o := by
  refine ⟨⟨k, ks, rfl, hk, hc⟩, fun ts r hts hr => ?_⟩
  rw [read_primary, h ts r hts hr]
  cases o <;> rfl

/-! ### Atoms -/

theorem alone {k : Kind} {x : Expression} (h : k.alone? = some x) :
    Reads .primary [k] (some x) := by
  have hlead : 9 ≤ k.leading ∧ k.endsExpression = false := by
    unfold Kind.alone? at h
    split at h <;> first | exact ⟨Nat.le_refl 9, rfl⟩ | exact nomatch h
  refine of_atom hlead.1 hlead.2 fun ts r hts _ => ?_
  obtain ⟨place, stop, rfl⟩ := kinds_singleton hts
  exact readAtom_of_alone h place stop r

theorem integer (l : String) : Reads .primary [.integer l] (some (.integer l)) :=
  alone rfl

theorem float (v : Binary64) : Reads .primary [.float v] (some (.float v)) :=
  alone rfl

theorem name (n : String) : Reads .primary [.identifier n] (some (.name n)) :=
  alone rfl

theorem boolean (b : Bool) :
    Reads .primary [.keyword (if b then .trueKw else .falseKw)] (some (.boolean b)) := by
  cases b <;> exact alone rfl

theorem noneLiteral : Reads .primary [.keyword .noneKw] (some .none) :=
  alone rfl

/-- Strings are read up to where no string follows. -/
theorem readStrings_value? {r : List Token} (hr : Stops 10 r) (ss : List String) :
    ∀ ts, ts.map Token.kind = ss.map .string →
      (readStrings (ts ++ r)).value? = some (String.join ss, r) := by
  induction ss with
  | nil =>
    intro ts hts
    obtain rfl := List.map_eq_nil_iff.mp hts
    rw [List.nil_append]
    unfold readStrings
    split
    · exact absurd (stops_cons.mp hr) (by simp [Kind.binding])
    · rfl
  | cons s ss ih =>
    intro ts hts
    obtain ⟨place, stop, ts', rfl, hts'⟩ := kinds_cons hts
    rw [List.cons_append, readStrings, value?_past, value?_map, ih ts' hts', String.join_cons]
    rfl

/-- Strings side by side are one string. -/
theorem strings {ss : List String} (hne : ss ≠ []) :
    Reads .primary (ss.map .string) (some (.string (String.join ss))) := by
  cases ss with
  | nil => exact absurd rfl hne
  | cons s ss =>
    refine of_atom (Nat.le_refl 9) rfl fun ts r hts hr => ?_
    obtain ⟨place, stop, ts', rfl, hts'⟩ := kinds_cons hts
    rw [List.cons_append, readAtom, value?_past, value?_map, readStrings_value? hr ss ts' hts',
      String.join_cons]
    rfl

theorem string (s : String) : Reads .primary [.string s] (some (.string s)) := by
  have hread := strings (List.cons_ne_nil s [])
  rwa [String.join_cons, String.join_nil, String.append_empty] at hread

/-- The words that begin a statement, and the one that only compares, begin no expression. -/
theorem keyword {k : Keyword} (h : k ∈ [.elifKw, .whileKw, .defKw, .passKw, .breakKw, .continueKw,
    .isKw]) : Reads .primary [.keyword k] none := by
  refine of_atom (by revert k; decide) rfl fun ts r hts _ => ?_
  obtain ⟨place, stop, rfl⟩ := kinds_singleton hts
  simp only [List.mem_cons, List.not_mem_nil, or_false] at h
  rcases h with rfl | rfl | rfl | rfl | rfl | rfl | rfl
  all_goals
    rw [List.cons_append, readAtom]
    · rfl
    all_goals simp

/-! ### Brackets -/

theorem parentheses (h : Reads .tuple ks o) :
    Reads .primary (.mark (.opening .round) :: (ks ++ [Kind.mark (.closing .round)])) o := by
  refine of_atom (Nat.le_refl 9) rfl fun ts r hts _ => ?_
  obtain ⟨place, stop, ts₁, rfl, hts₁⟩ := kinds_cons hts
  obtain ⟨tx, tc, rfl, htx, htc⟩ := List.map_eq_append_iff.mp hts₁
  obtain ⟨place', stop', rfl⟩ := kinds_singleton htc
  rw [List.cons_append, List.append_assoc, List.singleton_append, readAtom, value?_past,
    value?_bind fun _ _ _ => value?_map _ _]
  · change ((Growth.Code.read .tuple (tx ++ _)).bind _) = _
    rw [h.read_of_stops htx (Stops.zero_of_endsExpression rfl _)]
    cases o with
    | none => rfl
    | some x => simp [expectClosing_value?, after?]
  · intro place'' stop'' rest heq
    exact h.head_ne_closing htx .round _ ⟨_, place'', stop''⟩ (by rw [heq]; rfl) rfl

theorem emptyTuple :
    Reads .primary [.mark (.opening .round), .mark (.closing .round)] (some (.tuple [])) := by
  refine of_atom (Nat.le_refl 9) rfl fun ts r hts _ => ?_
  obtain ⟨place, stop, ts₁, rfl, hts₁⟩ := kinds_cons hts
  obtain ⟨place', stop', rfl⟩ := kinds_singleton hts₁
  rw [List.cons_append, List.cons_append, readAtom]
  rfl

theorem emptyDict :
    Reads .primary [.mark (.opening .curly), .mark (.closing .curly)] (some (.dict [])) := by
  refine of_atom (Nat.le_refl 9) rfl fun ts r hts _ => ?_
  obtain ⟨place, stop, ts₁, rfl, hts₁⟩ := kinds_cons hts
  obtain ⟨place', stop', rfl⟩ := kinds_singleton hts₁
  rw [List.cons_append, List.cons_append, readAtom]
  rfl

end Reads

/-- The kinds `ks` are read as items up to and including the closing bracket. -/
def ReadsItems (b : Bracket) (ks : List Kind) (o : Option (List Expression)) : Prop :=
  ∀ ts r, ts.map Token.kind = ks → items b (ts ++ r) = o.map fun xs => (xs, r)

namespace ReadsItems

variable {b : Bracket} {ks ks' : List Kind} {o : Option Expression}
  {o' : Option (List Expression)}

theorem nil (b : Bracket) : ReadsItems b [.mark (.closing b)] (some []) := by
  intro ts r hts
  obtain ⟨place, stop, rfl⟩ := kinds_singleton hts
  rw [List.singleton_append, items_eq, after?_self]
  rfl

theorem after?_closing (h : Reads .or ks o) {ts : List Token} (hts : ts.map Token.kind = ks)
    (r : List Token) : after? (.mark (.closing b)) (ts ++ r) = none := by
  refine after?_eq_none fun place stop rest heq => ?_
  exact h.head_ne_closing hts b r ⟨_, place, stop⟩ (by rw [heq]; rfl) rfl

theorem one (h : Reads .or ks o) :
    ReadsItems b (ks ++ [Kind.mark (.closing b)]) (o.map fun x => [x]) := by
  intro ts r hts
  obtain ⟨tx, tc, rfl, htx, htc⟩ := List.map_eq_append_iff.mp hts
  obtain ⟨place, stop, rfl⟩ := kinds_singleton htc
  rw [List.append_assoc, List.singleton_append, items_eq, after?_closing h htx,
    h.read_of_stops htx (Stops.zero_of_endsExpression rfl _)]
  cases o with
  | none => rfl
  | some x => simp [after?_self, after?_ne]

theorem cons (h : Reads .or ks o) (h' : ReadsItems b ks' o') :
    ReadsItems b (ks ++ .mark .comma :: ks') (o.bind fun x => o'.map fun xs => x :: xs) := by
  intro ts r hts
  obtain ⟨tx, tc, rfl, htx, htc⟩ := List.map_eq_append_iff.mp hts
  obtain ⟨place, stop, txs, rfl, htxs⟩ := kinds_cons htc
  rw [List.append_assoc, List.cons_append, items_eq, after?_closing h htx,
    h.read_of_stops htx Stops.comma]
  cases o with
  | none => rfl
  | some x =>
    simp only [Option.map_some, Option.bind_some]
    rw [after?_self]
    simp only
    rw [h' txs r htxs]
    cases o' <;> rfl

end ReadsItems

namespace Reads

variable {ks ks' : List Kind} {o : Option Expression} {o' : Option (List Expression)}

theorem list (h : ReadsItems .square ks o') :
    Reads .primary (.mark (.opening .square) :: ks) (o'.map .list) := by
  refine of_atom (Nat.le_refl 9) rfl fun ts r hts _ => ?_
  obtain ⟨place, stop, ts', rfl, hts'⟩ := kinds_cons hts
  rw [List.cons_append, readAtom, value?_past, value?_map]
  change (items .square (ts' ++ r)).map _ = _
  rw [h ts' r hts']
  cases o' <;> rfl

theorem singleton (h : Reads .or ks o) :
    Reads .primary (.mark (.opening .curly) :: (ks ++ [Kind.mark (.closing .curly)]))
      (o.map fun x => .set [x]) := by
  refine of_atom (Nat.le_refl 9) rfl fun ts r hts _ => ?_
  obtain ⟨place, stop, ts₁, rfl, hts₁⟩ := kinds_cons hts
  obtain ⟨tx, tc, rfl, htx, htc⟩ := List.map_eq_append_iff.mp hts₁
  obtain ⟨place', stop', rfl⟩ := kinds_singleton htc
  rw [List.cons_append, List.append_assoc, List.singleton_append,
    readAtom_curly (h.head_ne_closing htx .curly _),
    h.read_of_stops htx (Stops.zero_of_endsExpression rfl _)]
  cases o with
  | none => rfl
  | some x => simp [after?]

theorem set (h : Reads .or ks o) (h' : ReadsItems .curly ks' o') :
    Reads .primary (.mark (.opening .curly) :: (ks ++ .mark .comma :: ks'))
      (o.bind fun x => o'.map fun xs => .set (x :: xs)) := by
  refine of_atom (Nat.le_refl 9) rfl fun ts r hts _ => ?_
  obtain ⟨place, stop, ts₁, rfl, hts₁⟩ := kinds_cons hts
  obtain ⟨tx, tc, rfl, htx, htc⟩ := List.map_eq_append_iff.mp hts₁
  obtain ⟨place', stop', txs, rfl, htxs⟩ := kinds_cons htc
  rw [List.cons_append, List.append_assoc, List.cons_append,
    readAtom_curly (h.head_ne_closing htx .curly _), h.read_of_stops htx Stops.comma]
  cases o with
  | none => rfl
  | some x =>
    simp only [Option.map_some, Option.bind_some]
    rw [after?_ne (show Kind.mark .comma ≠ .mark .colon from nofun), after?_self]
    simp only
    rw [h' txs r htxs]
    cases o' <;> rfl

end Reads

/-- The kinds `ks` are read as the further entries of a dictionary, up to and including its closing
bracket. -/
structure ReadsEntries (ks : List Kind) (es : List (Expression × Expression)) : Prop where
  leads : ∃ k ks', ks = k :: ks' ∧ k.binding ≤ 1
  read : ∀ ts r, ts.map Token.kind = ks → entries (ts ++ r) = some (es, r)

theorem entries_comma {ts : List Token} (hc : ∀ t ∈ ts.head?, t.kind ≠ .mark (.closing .curly))
    (place : Place) (stop : Nat) :
    entries (⟨.mark .comma, place, stop⟩ :: ts) =
      (read .or ts).bind fun p => (after? (.mark .colon) p.2).bind fun rest =>
        (read .or rest).bind fun q => (entries q.2).map fun e => ((p.1, q.1) :: e.1, e.2) := by
  rw [entries, readEntries]
  · rw [value?_past, value?_bind (f := fun key rest =>
      (after? (.mark .colon) rest).bind fun rest =>
        (read .or rest).bind fun q => (entries q.2).map fun e => ((key, q.1) :: e.1, e.2))]
    · rfl
    · intro key rest _
      rw [value?_bind fun _ _ _ => value?_bind fun _ _ _ => value?_map _ _, expect_value?,
        Option.bind_map]
      rfl
  · intro place' stop' rest heq
    exact hc ⟨_, place', stop'⟩ (by rw [heq]; rfl) rfl

namespace ReadsEntries

variable {ks ks' ks'' : List Kind} {x y : Expression} {es : List (Expression × Expression)}

theorem nil : ReadsEntries [.mark (.closing .curly)] [] := by
  refine ⟨⟨_, [], rfl, Nat.zero_le 1⟩, fun ts r hts => ?_⟩
  obtain ⟨place, stop, rfl⟩ := kinds_singleton hts
  rw [entries, List.singleton_append, readEntries]
  · rw [value?_map, expectClosing_value?, after?_self]
    rfl
  all_goals simp

/-- There may be a comma after the last entry. -/
theorem comma : ReadsEntries [.mark .comma, .mark (.closing .curly)] [] := by
  refine ⟨⟨_, _, rfl, Nat.le_refl 1⟩, fun ts r hts => ?_⟩
  obtain ⟨place, stop, ts', rfl, hts'⟩ := kinds_cons hts
  obtain ⟨place', stop', rfl⟩ := kinds_singleton hts'
  rw [entries, List.cons_append, List.singleton_append, readEntries]
  rfl

theorem stops (h : ReadsEntries ks es) {ts : List Token} (hts : ts.map Token.kind = ks)
    (r : List Token) : Stops 1 (ts ++ r) := by
  obtain ⟨k, ks', rfl, hk⟩ := h.leads
  obtain ⟨place, stop, ts', rfl, -⟩ := kinds_cons hts
  exact stops_cons.mpr hk

theorem cons (hx : Reads .or ks (some x)) (hy : Reads .or ks' (some y))
    (h : ReadsEntries ks'' es) :
    ReadsEntries (.mark .comma :: (ks ++ .mark .colon :: (ks' ++ ks''))) ((x, y) :: es) := by
  refine ⟨⟨_, _, rfl, Nat.le_refl 1⟩, fun ts r hts => ?_⟩
  obtain ⟨place, stop, ts₁, rfl, hts₁⟩ := kinds_cons hts
  obtain ⟨tx, ts₂, rfl, htx, hts₂⟩ := List.map_eq_append_iff.mp hts₁
  obtain ⟨place', stop', ts₃, rfl, hts₃⟩ := kinds_cons hts₂
  obtain ⟨ty, te, rfl, hty, hte⟩ := List.map_eq_append_iff.mp hts₃
  rw [List.cons_append, List.append_assoc, List.cons_append, List.append_assoc,
    entries_comma (hx.head_ne_closing htx .curly _), hx.read_of_stops htx (Stops.colon _)]
  simp only [Option.map_some, Option.bind_some]
  rw [after?_self]
  simp only [Option.bind_some]
  rw [hy.read_of_stops hty (h.stops hte r)]
  simp only [Option.map_some, Option.bind_some]
  rw [h.read te r hte]
  rfl

end ReadsEntries

theorem Reads.dict {ks ks' ks'' : List Kind} {x y : Expression}
    {es : List (Expression × Expression)} (hx : Reads .or ks (some x))
    (hy : Reads .or ks' (some y)) (h : ReadsEntries ks'' es) :
    Reads .primary (.mark (.opening .curly) :: (ks ++ .mark .colon :: (ks' ++ ks'')))
      (some (.dict ((x, y) :: es))) := by
  refine of_atom (Nat.le_refl 9) rfl fun ts r hts _ => ?_
  obtain ⟨place, stop, ts₁, rfl, hts₁⟩ := kinds_cons hts
  obtain ⟨tx, ts₂, rfl, htx, hts₂⟩ := List.map_eq_append_iff.mp hts₁
  obtain ⟨place', stop', ts₃, rfl, hts₃⟩ := kinds_cons hts₂
  obtain ⟨ty, te, rfl, hty, hte⟩ := List.map_eq_append_iff.mp hts₃
  rw [List.cons_append, List.append_assoc, List.cons_append, List.append_assoc,
    readAtom_curly (hx.head_ne_closing htx .curly _), hx.read_of_stops htx (Stops.colon _)]
  simp only [Option.map_some, Option.bind_some]
  rw [after?_self]
  simp only
  rw [hy.read_of_stops hty (h.stops hte r)]
  simp only [Option.map_some, Option.bind_some]
  rw [h.read te r hte]
  rfl

/-! ### Tuples -/

/-- The kinds of tokens with which an expression can begin. -/
def Kind.starts (k : Kind) : Bool :=
  startsExpression [⟨k, .start, 0⟩]

theorem startsExpression_cons (t : Token) (ts : List Token) :
    startsExpression (t :: ts) = t.kind.starts := rfl

theorem starts_of_readAtom {ts : List Token} {p : Expression × List Token}
    (h : (readAtom ts).value? = some p) : startsExpression ts = true := by
  rw [readAtom.eq_def] at h
  split at h <;> first | rfl | cases h

/-- Where an expression is read, it has begun. -/
theorem starts_of_read {level : Precedence} {t : Token} {ts : List Token}
    {p : Expression × List Token} (h : read level (t :: ts) = some p) : t.kind.starts = true := by
  cases level with
  | tuple =>
    rw [read_tuple] at h
    obtain ⟨q, hq, -⟩ := Option.bind_eq_some_iff.mp h
    exact starts_of_read hq
  | or =>
    rw [read_or] at h
    obtain ⟨q, hq, -⟩ := Option.bind_eq_some_iff.mp h
    exact starts_of_read hq
  | and =>
    rw [read_and] at h
    obtain ⟨q, hq, -⟩ := Option.bind_eq_some_iff.mp h
    exact starts_of_read hq
  | not =>
    rw [read_not] at h
    by_cases hk : t.kind = .keyword .notKw
    · rw [hk]
      rfl
    · rw [after?, if_neg hk] at h
      exact starts_of_read h
  | comparison =>
    rw [read_comparison] at h
    obtain ⟨q, hq, -⟩ := Option.bind_eq_some_iff.mp h
    exact starts_of_read hq
  | sum =>
    rw [read_sum] at h
    obtain ⟨q, hq, -⟩ := Option.bind_eq_some_iff.mp h
    exact starts_of_read hq
  | product =>
    rw [read_product] at h
    obtain ⟨q, hq, -⟩ := Option.bind_eq_some_iff.mp h
    exact starts_of_read hq
  | sign =>
    rw [read_sign] at h
    cases hs : sign? t.kind with
    | some op =>
      unfold sign? at hs
      split at hs <;> first | (rename_i hk; rw [hk]; rfl) | cases hs
    | none =>
      rw [hs] at h
      exact starts_of_read h
  | power =>
    rw [read_power] at h
    obtain ⟨q, hq, -⟩ := Option.bind_eq_some_iff.mp h
    exact starts_of_read hq
  | primary =>
    rw [read_primary] at h
    obtain ⟨q, hq, -⟩ := Option.bind_eq_some_iff.mp h
    have hstarts := starts_of_readAtom hq
    exact hstarts
termination_by 9 - level.rank
decreasing_by all_goals (subst_vars; decide)

theorem Reads.starts {level : Precedence} {ks : List Kind} {x : Expression}
    (h : Reads level ks (some x)) {ts : List Token} (hts : ts.map Token.kind = ks)
    (r : List Token) : startsExpression (ts ++ r) = true := by
  have hread := h.read_of_stops hts (r := []) (by rintro _ ⟨⟩)
  obtain ⟨t, ts', rfl, -, -⟩ := h.exists_cons hts
  rw [List.append_nil] at hread
  exact starts_of_read hread

theorem Kind.binding_pos_of_starts {k : Kind} (h : k.starts = true) : 0 < k.binding := by
  cases k with
  | identifier _ | integer _ | float _ | string _ => exact Nat.succ_pos _
  | keyword w => cases w <;> first | exact Nat.succ_pos _ | exact nomatch h
  | mark m =>
    cases m with
    | opening b => cases b <;> exact Nat.succ_pos _
    | operator op => exact Nat.succ_pos _
    | _ => exact nomatch h
  | _ => exact nomatch h

/-- No expression begins where nothing goes on. -/
theorem Stops.startsExpression {r : List Token} (h : Stops 0 r) : startsExpression r = false := by
  cases r with
  | nil => rfl
  | cons t r =>
    have hbinding := stops_cons.mp h
    rw [startsExpression_cons]
    refine Bool.eq_false_iff.mpr fun hs => ?_
    have := Kind.binding_pos_of_starts hs
    omega

/-- The kinds `ks` are read as the further items of a tuple. -/
def ReadsMore (ks : List Kind) (xs : List Expression) : Prop :=
  ∀ ts r, ts.map Token.kind = ks → Stops 0 r → (readMore (ts ++ r)).value? = some (xs, r)

namespace ReadsMore

variable {ks ks' : List Kind} {x : Expression} {xs : List Expression}

theorem nil : ReadsMore [] [] := by
  intro ts r hts hr
  obtain rfl := List.map_eq_nil_iff.mp hts
  rw [List.nil_append, readMore]
  · rfl
  · rintro _ _ _ rfl
    exact absurd (stops_cons.mp hr) (by simp [Kind.binding])

/-- There may be a comma after the last item. -/
theorem comma : ReadsMore [.mark .comma] [] := by
  intro ts r hts hr
  obtain ⟨place', stop', rfl⟩ := kinds_singleton hts
  rw [List.singleton_append, readMore, if_neg (by simp [hr.startsExpression])]
  rfl

theorem cons (hx : Reads .or ks (some x)) (h : ReadsMore ks' xs)
    (hks' : ∀ k ∈ ks'.head?, k = .mark .comma) :
    ReadsMore (.mark .comma :: (ks ++ ks')) (x :: xs) := by
  intro ts r hts hr
  obtain ⟨place', stop', ts₁, rfl, hts₁⟩ := kinds_cons hts
  obtain ⟨tx, txs, rfl, htx, htxs⟩ := List.map_eq_append_iff.mp hts₁
  have hstops : Stops Precedence.or.rank (txs ++ r) := by
    cases txs with
    | nil => exact hr.mono (Nat.zero_le _)
    | cons t txs =>
      have ht : t.kind = .mark .comma := hks' t.kind (by rw [← htxs]; rfl)
      refine stops_cons.mpr ?_
      rw [ht]
      exact Nat.le_refl 1
  rw [List.cons_append, List.append_assoc, readMore, if_pos (hx.starts htx _), value?_past,
    value?_bind fun _ _ _ => value?_map _ _]
  change ((read .or (tx ++ _)).bind _) = _
  rw [hx.read_of_stops htx hstops]
  simp only [Option.map_some, Option.bind_some]
  rw [h txs r htxs hr]
  rfl

end ReadsMore

/-- Items with a comma after the first one are a tuple. -/
theorem Reads.tuple {ks ks' : List Kind} {x : Expression} {xs : List Expression}
    (hx : Reads .or ks (some x)) (h : ReadsMore (.mark .comma :: ks') xs) :
    Reads .tuple (ks ++ .mark .comma :: ks') (some (.tuple (x :: xs))) := by
  obtain ⟨k₁, ks₁, rfl, -, hc₁⟩ := hx.leads
  refine ⟨⟨k₁, _, rfl, Nat.zero_le _, hc₁⟩, fun ts r hts hr => ?_⟩
  obtain ⟨tx, txs, rfl, htx, htxs⟩ := List.map_eq_append_iff.mp hts
  have hmore := h txs r htxs hr
  obtain ⟨place, stop, txs', rfl, -⟩ := kinds_cons htxs
  rw [List.append_assoc, List.cons_append, read_tuple, hx.read_of_stops htx Stops.comma]
  simp only [Option.map_some, Option.bind_some]
  rw [after?_self]
  simp only
  rw [← List.cons_append, hmore]
  rfl

/-! ### Suffixes -/

namespace Reads

variable {ks ks' : List Kind} {o o' : Option Expression}

theorem call {o' : Option (List Expression)} (h : Reads .primary ks o)
    (h' : ReadsItems .round ks' o') :
    Reads .primary (ks ++ .mark (.opening .round) :: ks')
      (o.bind fun x => o'.map fun xs => .call x xs) := by
  obtain ⟨k₁, ks₁, rfl, hk₁, hc₁⟩ := h.leads
  refine ⟨⟨k₁, _, rfl, hk₁, hc₁⟩, fun ts r hts hr => ?_⟩
  obtain ⟨tx, ta, rfl, htx, hta⟩ := List.map_eq_append_iff.mp hts
  obtain ⟨place, stop, ta', rfl, hta'⟩ := kinds_cons hta
  rw [List.append_assoc, List.cons_append,
    h.read tx _ htx (Stops.of_isSuffix (k := .mark (.opening .round)) rfl)]
  cases o with
  | none => rfl
  | some x =>
    simp only [Option.bind_some]
    rw [after, suffixed_call x rfl, h' ta' r hta']
    cases o' <;> rfl

theorem item (h : Reads .primary ks o) (h' : Reads .tuple ks' o') :
    Reads .primary (ks ++ Kind.mark (.opening .square) :: (ks' ++ [Kind.mark (.closing .square)]))
      (o.bind fun x => o'.map fun i => .item x i) := by
  obtain ⟨k₁, ks₁, rfl, hk₁, hc₁⟩ := h.leads
  refine ⟨⟨k₁, _, rfl, hk₁, hc₁⟩, fun ts r hts hr => ?_⟩
  obtain ⟨tx, ti, rfl, htx, hti⟩ := List.map_eq_append_iff.mp hts
  obtain ⟨place, stop, ti', rfl, hti'⟩ := kinds_cons hti
  obtain ⟨ti'', tc, rfl, hti'', htc⟩ := List.map_eq_append_iff.mp hti'
  obtain ⟨place', stop', rfl⟩ := kinds_singleton htc
  rw [List.append_assoc, List.cons_append,
    h.read tx _ htx (Stops.of_isSuffix (k := .mark (.opening .square)) rfl),
    List.append_assoc, List.singleton_append]
  cases o with
  | none => rfl
  | some x =>
    simp only [Option.bind_some]
    rw [after, suffixed_item x rfl, h'.read_of_stops hti'' (Stops.zero_of_endsExpression rfl _)]
    cases o' with
    | none => rfl
    | some i =>
      simp only [Option.map_some, Option.bind_some]
      rw [after?_self]
      rfl

theorem field (h : Reads .primary ks o) (n : String) :
    Reads .primary (ks ++ [Kind.mark .dot, .identifier n]) (o.map fun x => .field x n) := by
  obtain ⟨k₁, ks₁, rfl, hk₁, hc₁⟩ := h.leads
  refine ⟨⟨k₁, _, rfl, hk₁, hc₁⟩, fun ts r hts hr => ?_⟩
  obtain ⟨tx, tf, rfl, htx, htf⟩ := List.map_eq_append_iff.mp hts
  obtain ⟨place, stop, tf', rfl, htf'⟩ := kinds_cons htf
  obtain ⟨place', stop', rfl⟩ := kinds_singleton htf'
  rw [List.append_assoc, List.cons_append,
    h.read tx _ htx (Stops.of_isSuffix (k := .mark .dot) rfl)]
  cases o with
  | none => rfl
  | some x =>
    simp only [Option.bind_some]
    rw [after, suffixed_field x rfl]
    rfl

end Reads

end Growth.Code
