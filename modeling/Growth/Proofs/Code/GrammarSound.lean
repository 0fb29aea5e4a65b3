import Growth.Proofs.Code.Grammar
import Growth.Proofs.Code.ReadsBracketed

/-! Expressions that are read are derived by the grammar. -/

namespace Growth.Code

open Outcome

/-! ### The kinds that are taken -/

/-- The kinds `ks` are those of the tokens of `ts` before `rest`. -/
def Spans (ts : List Token) (ks : List Kind) (rest : List Token) : Prop :=
  ts.map Token.kind = ks ++ rest.map Token.kind

namespace Spans

variable {ts ts' rest : List Token} {ks ks' : List Kind} {k : Kind}

theorem refl (ts : List Token) : Spans ts [] ts := rfl

theorem trans (h : Spans ts ks ts') (h' : Spans ts' ks' rest) : Spans ts (ks ++ ks') rest := by
  rw [Spans, h, h', List.append_assoc]

theorem cons {t : Token} (ht : t.kind = k) (h : Spans ts ks rest) :
    Spans (t :: ts) (k :: ks) rest := by
  rw [Spans, List.map_cons, ht, h, List.cons_append]

theorem length_le (h : Spans ts ks rest) : rest.length ≤ ts.length := by
  have hlength := congrArg List.length h
  simp only [List.length_map, List.length_append] at hlength
  omega

end Spans

theorem eq_cons_of_after? {k : Kind} {ts rest : List Token} (h : after? k ts = some rest) :
    ∃ t, ts = t :: rest ∧ t.kind = k := by
  cases ts with
  | nil => exact nomatch h
  | cons t ts =>
    unfold after? at h
    dsimp only at h
    split at h
    · cases h
      exact ⟨t, rfl, ‹_›⟩
    · exact nomatch h

theorem spans_of_after? {k : Kind} {ts rest : List Token} (h : after? k ts = some rest) :
    Spans ts [k] rest ∧ rest.length < ts.length := by
  obtain ⟨t, rfl, rfl⟩ := eq_cons_of_after? h
  exact ⟨(Spans.refl rest).cons rfl, Nat.lt_succ_self _⟩

theorem spans_of_comparison? {ts : List Token} {op : Comparison} {rest : List Token}
    {hrest : rest.length < ts.length} (h : comparison? ts = some (op, ⟨rest, hrest⟩)) :
    Spans ts op.kinds rest := by
  unfold comparison? at h
  split at h
  case h_6 => exact nomatch h
  all_goals
    simp only [Option.some.injEq, Prod.mk.injEq, Subtype.mk.injEq] at h
    obtain ⟨rfl, rfl⟩ := h
    rfl

theorem spans_of_expectIdentifier {ts : List Token} {n : String} {rest : List Token}
    (h : (expectIdentifier ts).value? = some (n, rest)) :
    Spans ts [.identifier n] rest ∧ rest.length < ts.length := by
  unfold expectIdentifier at h
  split at h
  · cases h
    exact ⟨(Spans.refl rest).cons rfl, Nat.lt_succ_self _⟩
  · exact nomatch h

theorem spans_of_readStrings (ts : List Token) {content : String} {rest : List Token}
    (h : (readStrings ts).value? = some (content, rest)) :
    ∃ ss : List String, Spans ts (ss.map .string) rest ∧ content = String.join ss := by
  fun_induction readStrings ts generalizing content with
  | case1 s _ _ ts ih =>
    rw [value?_past, value?_map] at h
    obtain ⟨⟨more, rest⟩, hmore, ⟨⟩⟩ := Option.map_eq_some_iff.mp h
    obtain ⟨ss, hs, rfl⟩ := ih hmore
    exact ⟨s :: ss, hs.cons rfl, String.join_cons.symm⟩
  | case2 ts =>
    cases h
    exact ⟨[], .refl _, rfl⟩

/-! ### Productions for what groups to the left -/

theorem Derives.join {level : Precedence} {k : Kind} {join : Expression → Expression → Expression}
    {ks ks' : List Kind} {x y : Expression} (hj : joining? level k = some join)
    (h : Derives (.expression level) ks x) (h' : Derives (.expression level.operand) ks' y) :
    Derives (.expression level) (ks ++ k :: ks') (join x y) := by
  unfold joining? at hj
  split at hj
  · cases hj
    exact .or h h'
  · cases hj
    exact .and h h'
  · split at hj
    · cases hj
      exact .sum ‹_› h h'
    · exact nomatch hj
  · split at hj
    · cases hj
      exact .product ‹_› h h'
    · exact nomatch hj
  · exact nomatch hj

theorem Derives.sign {k : Kind} {op : UnaryOperator} {ks : List Kind} {x : Expression}
    (hop : sign? k = some op) (h : Derives (.expression .sign) ks x) :
    Derives (.expression .sign) (k :: ks) (.unary op x) := by
  unfold sign? at hop
  split at hop
  · cases hop
    exact .minus h
  · cases hop
    exact .plus h
  · exact nomatch hop

/-! ### Equations for what goes on after a comma -/

theorem more_eq (ts : List Token) : (readMore ts).value? = match after? (.mark .comma) ts with
    | some rest =>
      if startsExpression rest = true then
        (read .or rest).bind fun p => (readMore p.2).value?.map fun q => (p.1 :: q.1, q.2)
      else some ([], rest)
    | none => some ([], ts) := by
  rw [readMore.eq_def]
  split
  · rw [after?_self]
    dsimp only
    split
    · rw [value?_past, value?_bind fun _ _ _ => value?_map _ _]
      rfl
    · rfl
  · rename_i hcomma
    rw [after?_eq_none fun _ _ _ h => by subst h; exact hcomma _ _ _ rfl]
    rfl

theorem entries_eq (ts : List Token) : entries ts = match after? (.mark .comma) ts with
    | some rest =>
      match after? (.mark (.closing .curly)) rest with
      | some rest => some ([], rest)
      | none => (read .or rest).bind fun p => (after? (.mark .colon) p.2).bind fun rest =>
        (read .or rest).bind fun q => (entries q.2).map fun e => ((p.1, q.1) :: e.1, e.2)
    | none => (after? (.mark (.closing .curly)) ts).map fun rest => ([], rest) := by
  cases hcomma : after? (.mark .comma) ts with
  | none =>
    dsimp only
    rw [entries, readEntries]
    · rw [value?_map, expectClosing_value?, Option.map_map]
      rfl
    · rintro _ _ _ _ _ rfl
      rw [after?_self] at hcomma
      cases hcomma
    · rintro _ _ _ rfl
      rw [after?_self] at hcomma
      cases hcomma
  | some rest =>
    obtain ⟨t, rfl, ht⟩ := eq_cons_of_after? hcomma
    obtain ⟨kind, place, stop⟩ := t
    cases ht
    dsimp only
    cases hclosing : after? (.mark (.closing .curly)) rest with
    | none =>
      refine entries_comma (fun t ht hk => ?_) place stop
      obtain ⟨rest', rfl⟩ := List.head?_eq_some_iff.mp ht
      simp [after?, hk] at hclosing
    | some rest' =>
      obtain ⟨t', rfl, ht'⟩ := eq_cons_of_after? hclosing
      obtain ⟨kind', place', stop'⟩ := t'
      cases ht'
      rw [entries, readEntries]
      rfl

/-! ### What is read is derived -/

mutual

/-- What is read at a level is derived at it. -/
theorem derives_of_read : (level : Precedence) → (ts : List Token) → {x : Expression} →
    {rest : List Token} → read level ts = some (x, rest) →
      ∃ ks, Spans ts ks rest ∧ Derives (.expression level) ks x
  | .tuple, ts, x, rest, h => by
    rw [read_tuple] at h
    obtain ⟨⟨first, rest₁⟩, hfirst, hmore⟩ := Option.bind_eq_some_iff.mp h
    obtain ⟨ks, hs, hd⟩ := derives_of_read .or ts hfirst
    have hle := hs.length_le
    dsimp only at hmore
    split at hmore
    · rename_i hcomma
      obtain ⟨⟨others, rest₂⟩, hothers, ⟨⟩⟩ := Option.map_eq_some_iff.mp hmore
      obtain ⟨ks', hs', hd'⟩ := derives_of_more rest₁ hcomma hothers
      exact ⟨_, hs.trans hs', .tuple hd hd'⟩
    · cases hmore
      exact ⟨ks, hs, .looser (by decide) hd⟩
  | .or, ts, x, rest, h => by
    rw [read_or] at h
    obtain ⟨⟨left, rest₁⟩, hleft, hjoined⟩ := Option.bind_eq_some_iff.mp h
    obtain ⟨ks, hs, hd⟩ := derives_of_read .and ts hleft
    have hle := hs.length_le
    obtain ⟨ks', hs', hd'⟩ := derives_of_joined .or rest₁ (.looser (by decide) hd) hjoined
    exact ⟨_, hs.trans hs', hd'⟩
  | .and, ts, x, rest, h => by
    rw [read_and] at h
    obtain ⟨⟨left, rest₁⟩, hleft, hjoined⟩ := Option.bind_eq_some_iff.mp h
    obtain ⟨ks, hs, hd⟩ := derives_of_read .not ts hleft
    have hle := hs.length_le
    obtain ⟨ks', hs', hd'⟩ := derives_of_joined .and rest₁ (.looser (by decide) hd) hjoined
    exact ⟨_, hs.trans hs', hd'⟩
  | .not, ts, x, rest, h => by
    rw [read_not] at h
    split at h
    · rename_i rest₁ hnot
      obtain ⟨hs, hlt⟩ := spans_of_after? hnot
      obtain ⟨⟨y, rest₂⟩, hy, ⟨⟩⟩ := Option.map_eq_some_iff.mp h
      obtain ⟨ks', hs', hd'⟩ := derives_of_read .not rest₁ hy
      exact ⟨_, hs.trans hs', .not hd'⟩
    · obtain ⟨ks, hs, hd⟩ := derives_of_read .comparison ts h
      exact ⟨ks, hs, .looser (by decide) hd⟩
  | .comparison, ts, x, rest, h => by
    rw [read_comparison] at h
    obtain ⟨⟨first, rest₁⟩, hfirst, hothers⟩ := Option.bind_eq_some_iff.mp h
    obtain ⟨ks, hs, hd⟩ := derives_of_read .sum ts hfirst
    have hle := hs.length_le
    obtain ⟨⟨others, rest₂⟩, hcompared, ⟨⟩⟩ := Option.map_eq_some_iff.mp hothers
    obtain ⟨ks', hs', hd'⟩ := derives_of_compared rest₁ hcompared
    cases others with
    | nil =>
      cases hd'
      exact ⟨ks, by simpa using hs.trans hs', .looser (by decide) hd⟩
    | cons => exact ⟨_, hs.trans hs', .comparison hd hd' (List.cons_ne_nil _ _)⟩
  | .sum, ts, x, rest, h => by
    rw [read_sum] at h
    obtain ⟨⟨left, rest₁⟩, hleft, hjoined⟩ := Option.bind_eq_some_iff.mp h
    obtain ⟨ks, hs, hd⟩ := derives_of_read .product ts hleft
    have hle := hs.length_le
    obtain ⟨ks', hs', hd'⟩ := derives_of_joined .sum rest₁ (.looser (by decide) hd) hjoined
    exact ⟨_, hs.trans hs', hd'⟩
  | .product, ts, x, rest, h => by
    rw [read_product] at h
    obtain ⟨⟨left, rest₁⟩, hleft, hjoined⟩ := Option.bind_eq_some_iff.mp h
    obtain ⟨ks, hs, hd⟩ := derives_of_read .sign ts hleft
    have hle := hs.length_le
    obtain ⟨ks', hs', hd'⟩ := derives_of_joined .product rest₁ (.looser (by decide) hd) hjoined
    exact ⟨_, hs.trans hs', hd'⟩
  | .sign, [], x, rest, h => by
    rw [read, readAt] at h
    exact nomatch h
  | .sign, t :: ts, x, rest, h => by
    rw [read_sign] at h
    split at h
    · rename_i op hop
      obtain ⟨⟨y, rest₁⟩, hy, ⟨⟩⟩ := Option.map_eq_some_iff.mp h
      obtain ⟨ks, hs, hd⟩ := derives_of_read .sign ts hy
      exact ⟨_, hs.cons rfl, .sign hop hd⟩
    · obtain ⟨ks, hs, hd⟩ := derives_of_read .power (t :: ts) h
      exact ⟨ks, hs, .looser (by decide) hd⟩
  | .power, ts, x, rest, h => by
    rw [read_power] at h
    obtain ⟨⟨base, rest₁⟩, hbase, hexponent⟩ := Option.bind_eq_some_iff.mp h
    obtain ⟨ks, hs, hd⟩ := derives_of_read .primary ts hbase
    have hle := hs.length_le
    dsimp only at hexponent
    split at hexponent
    · rename_i rest₂ hpower
      obtain ⟨hs₁, hlt⟩ := spans_of_after? hpower
      obtain ⟨⟨y, rest₃⟩, hy, ⟨⟩⟩ := Option.map_eq_some_iff.mp hexponent
      obtain ⟨ks', hs', hd'⟩ := derives_of_read .sign rest₂ hy
      exact ⟨_, hs.trans (hs₁.trans hs'), .power hd hd'⟩
    · cases hexponent
      exact ⟨ks, hs, .looser (by decide) hd⟩
  | .primary, ts, x, rest, h => by
    rw [read_primary] at h
    obtain ⟨⟨atom, rest₁⟩, hatom, hsuffixed⟩ := Option.bind_eq_some_iff.mp h
    obtain ⟨ks, hs, hd⟩ := derives_of_atom ts hatom
    have hle := hs.length_le
    obtain ⟨ks', hs', hd'⟩ := derives_of_suffixed rest₁ hd hsuffixed
    exact ⟨_, hs.trans hs', hd'⟩
termination_by level ts => 16 * ts.length + (10 - level.rank)
decreasing_by all_goals (simp only [Precedence.rank, List.length_cons]; omega)

/-- Operands that are joined to one that is derived are derived with it. -/
theorem derives_of_joined (level : Precedence) (ts : List Token) {left x : Expression}
    {ks : List Kind} {rest : List Token} (hleft : Derives (.expression level) ks left)
    (h : joined level left ts = some (x, rest)) :
    ∃ ks', Spans ts ks' rest ∧ Derives (.expression level) (ks ++ ks') x := by
  match ts with
  | [] =>
    rw [joined_nil] at h
    cases h
    exact ⟨[], .refl _, by rwa [List.append_nil]⟩
  | t :: ts =>
    rw [joined_cons] at h
    split at h
    · cases h
      exact ⟨[], .refl _, by rwa [List.append_nil]⟩
    · rename_i join hj
      obtain ⟨⟨right, rest₁⟩, hright, hmore⟩ := Option.bind_eq_some_iff.mp h
      obtain ⟨ks₁, hs₁, hd₁⟩ := derives_of_read level.operand ts hright
      have hle := hs₁.length_le
      obtain ⟨ks₂, hs₂, hd₂⟩ := derives_of_joined level rest₁ (hleft.join hj hd₁) hmore
      refine ⟨_, (hs₁.trans hs₂).cons rfl, ?_⟩
      rwa [List.append_assoc, List.cons_append] at hd₂
termination_by 16 * ts.length
decreasing_by all_goals (simp only [List.length_cons]; omega)

/-- Further operands of a comparison are derived. -/
theorem derives_of_compared (ts : List Token) {xs : List (Comparison × Expression)}
    {rest : List Token} (h : compared ts = some (xs, rest)) :
    ∃ ks, Spans ts ks rest ∧ Derives .compared ks xs := by
  rw [compared_eq] at h
  split at h
  · cases h
    exact ⟨[], .refl _, .noneCompared⟩
  · rename_i op rest₁ hlt hop
    have hs := spans_of_comparison? hop
    obtain ⟨⟨x, rest₂⟩, hx, hmore⟩ := Option.bind_eq_some_iff.mp h
    obtain ⟨ks, hs', hd⟩ := derives_of_read .sum rest₁ hx
    have hle := hs'.length_le
    obtain ⟨⟨others, rest₃⟩, hothers, ⟨⟩⟩ := Option.map_eq_some_iff.mp hmore
    obtain ⟨ks', hs'', hd'⟩ := derives_of_compared rest₂ hothers
    exact ⟨_, hs.trans (hs'.trans hs''), .moreCompared op hd hd'⟩
termination_by 16 * ts.length
decreasing_by all_goals (simp only [Precedence.rank] at *; omega)

/-- Calls, indices and fields of what is derived are derived with it. -/
theorem derives_of_suffixed (ts : List Token) {x y : Expression} {ks : List Kind}
    {rest : List Token} (hx : Derives (.expression .primary) ks x)
    (h : suffixed x ts = some (y, rest)) :
    ∃ ks', Spans ts ks' rest ∧ Derives (.expression .primary) (ks ++ ks') y := by
  match ts with
  | [] =>
    rw [suffixed_of_not_isSuffix x (by simp)] at h
    cases h
    exact ⟨[], .refl _, by rwa [List.append_nil]⟩
  | t :: ts =>
    cases hk : t.kind.isSuffix with
    | false =>
      rw [suffixed_of_not_isSuffix x (by simpa using hk)] at h
      cases h
      exact ⟨[], .refl _, by rwa [List.append_nil]⟩
    | true =>
      unfold Kind.isSuffix at hk
      split at hk
      · rename_i ht
        rw [suffixed_call x ht] at h
        obtain ⟨⟨xs, rest₁⟩, hitems, hmore⟩ := Option.bind_eq_some_iff.mp h
        obtain ⟨ks₁, hs₁, hd₁⟩ := derives_of_items .round ts hitems
        have hle := hs₁.length_le
        obtain ⟨ks₂, hs₂, hd₂⟩ := derives_of_suffixed rest₁ (.call hx hd₁) hmore
        exact ⟨_, (hs₁.trans hs₂).cons ht, by simpa [Bracket.around] using hd₂⟩
      · rename_i ht
        rw [suffixed_item x ht] at h
        obtain ⟨⟨i, rest₁⟩, hi, hclosed⟩ := Option.bind_eq_some_iff.mp h
        obtain ⟨ks₁, hs₁, hd₁⟩ := derives_of_read .tuple ts hi
        have hle := hs₁.length_le
        dsimp only at hclosed
        obtain ⟨rest₂, hclosing, hmore⟩ := Option.bind_eq_some_iff.mp hclosed
        obtain ⟨hs₂, hlt⟩ := spans_of_after? hclosing
        obtain ⟨ks₃, hs₃, hd₃⟩ := derives_of_suffixed rest₂ (.item hx hd₁) hmore
        exact ⟨_, (hs₁.trans (hs₂.trans hs₃)).cons ht, by simpa [Bracket.around] using hd₃⟩
      · rename_i ht
        rw [suffixed_field x ht] at h
        obtain ⟨⟨n, rest₁⟩, hname, hmore⟩ := Option.bind_eq_some_iff.mp h
        obtain ⟨hs₁, hlt⟩ := spans_of_expectIdentifier hname
        obtain ⟨ks₂, hs₂, hd₂⟩ := derives_of_suffixed rest₁ (.field n hx) hmore
        exact ⟨_, (hs₁.trans hs₂).cons ht, by simpa using hd₂⟩
      · exact nomatch hk
termination_by 16 * ts.length
decreasing_by all_goals (simp only [Precedence.rank, List.length_cons]; omega)

theorem derives_of_atom (ts : List Token) {x : Expression} {rest : List Token}
    (h : (readAtom ts).value? = some (x, rest)) :
    ∃ ks, Spans ts ks rest ∧ Derives (.expression .primary) ks x := by
  have hatom := h
  -- The cases replace `ts`; its length keeps a name, by which they are shorter.
  obtain ⟨n, hn⟩ : ∃ n, ts.length = n := ⟨_, rfl⟩
  rw [readAtom.eq_def] at h
  split at h
  · cases h
    exact ⟨_, (Spans.refl _).cons rfl, .integer _⟩
  · cases h
    exact ⟨_, (Spans.refl _).cons rfl, .float _⟩
  · rename_i s place stop rest₁
    rw [value?_past, value?_map] at h
    obtain ⟨⟨more, rest₂⟩, hmore, ⟨⟩⟩ := Option.map_eq_some_iff.mp h
    obtain ⟨ss, hs, rfl⟩ := spans_of_readStrings rest₁ hmore
    rw [← String.join_cons]
    exact ⟨_, hs.cons rfl, .strings (List.cons_ne_nil s ss)⟩
  · cases h
    exact ⟨_, (Spans.refl _).cons rfl, .name _⟩
  · cases h
    exact ⟨_, (Spans.refl _).cons rfl, .boolean true⟩
  · cases h
    exact ⟨_, (Spans.refl _).cons rfl, .boolean false⟩
  · cases h
    exact ⟨_, (Spans.refl _).cons rfl, .noneLiteral⟩
  · cases h
    exact ⟨_, ((Spans.refl _).cons rfl).cons rfl, .emptyTuple⟩
  · rename_i rest₁ hopen
    rw [value?_past, value?_bind fun _ _ _ => value?_map _ _] at h
    obtain ⟨⟨y, rest₂⟩, hy, hclosed⟩ := Option.bind_eq_some_iff.mp h
    obtain ⟨ks, hs, hd⟩ := derives_of_read .tuple rest₁ hy
    rw [expectClosing_value?, Option.map_map] at hclosed
    obtain ⟨rest₃, hclosing, ⟨⟩⟩ := Option.map_eq_some_iff.mp hclosed
    exact ⟨_, (hs.trans (spans_of_after? hclosing).1).cons rfl, .parentheses hd⟩
  · rename_i rest₁
    rw [value?_past, value?_map] at h
    obtain ⟨⟨xs, rest₂⟩, hxs, ⟨⟩⟩ := Option.map_eq_some_iff.mp h
    obtain ⟨ks, hs, hd⟩ := derives_of_items .square rest₁ hxs
    exact ⟨_, hs.cons rfl, .list hd⟩
  · cases h
    exact ⟨_, ((Spans.refl _).cons rfl).cons rfl, .dict .noEntries⟩
  · rename_i place stop rest₁ hopen
    have hcurly : ∀ t ∈ rest₁.head?, t.kind ≠ .mark (.closing .curly) := by
      rintro ⟨kind, place', stop'⟩ ht rfl
      obtain ⟨rest', rfl⟩ := List.head?_eq_some_iff.mp ht
      exact hopen _ _ _ rfl
    rw [readAtom_curly hcurly] at hatom
    obtain ⟨⟨first, rest₂⟩, hfirst, hmore⟩ := Option.bind_eq_some_iff.mp hatom
    obtain ⟨ks, hs, hd⟩ := derives_of_read .or rest₁ hfirst
    have hle := hs.length_le
    dsimp only at hmore
    split at hmore
    · rename_i rest₃ hcolon
      obtain ⟨hs₁, hlt₁⟩ := spans_of_after? hcolon
      obtain ⟨⟨v, rest₄⟩, hv, hmore⟩ := Option.bind_eq_some_iff.mp hmore
      obtain ⟨ks', hs₂, hd'⟩ := derives_of_read .or rest₃ hv
      have hle₂ := hs₂.length_le
      obtain ⟨⟨es, rest₅⟩, hes, ⟨⟩⟩ := Option.map_eq_some_iff.mp hmore
      obtain ⟨rfl, hs₃⟩ | ⟨ks'', hs₃, hd''⟩ := derives_of_entries rest₄ hes
      · refine ⟨_, (hs.trans (hs₁.trans (hs₂.trans hs₃))).cons rfl, ?_⟩
        simpa [Bracket.around] using Derives.dict (.oneEntry hd hd')
      · refine ⟨_, (hs.trans (hs₁.trans (hs₂.trans hs₃))).cons rfl, ?_⟩
        simpa [Bracket.around] using Derives.dict (.moreEntries hd hd' hd'')
    · rename_i rest₃ _ hcomma
      obtain ⟨hs₁, hlt₁⟩ := spans_of_after? hcomma
      obtain ⟨⟨xs, rest₄⟩, hxs, ⟨⟩⟩ := Option.map_eq_some_iff.mp hmore
      obtain ⟨ks', hs₂, hd'⟩ := derives_of_items .curly rest₃ hxs
      refine ⟨_, (hs.trans (hs₁.trans hs₂)).cons rfl, ?_⟩
      simpa [Bracket.around] using Derives.set (.moreItems hd hd') (List.cons_ne_nil _ _)
    · obtain ⟨rest₃, hclosing, ⟨⟩⟩ := Option.map_eq_some_iff.mp hmore
      exact ⟨_, (hs.trans (spans_of_after? hclosing).1).cons rfl,
        .set (.oneItem hd) (List.cons_ne_nil _ _)⟩
  · exact nomatch h
termination_by 16 * ts.length
decreasing_by all_goals (simp only [Precedence.rank, List.length_cons] at *; omega)

/-- Further items of a tuple are derived. -/
theorem derives_of_more (ts : List Token) {xs : List Expression} {rest rest' : List Token}
    (hcomma : after? (.mark .comma) ts = some rest)
    (h : (readMore ts).value? = some (xs, rest')) :
    ∃ ks, Spans ts (.mark .comma :: ks) rest' ∧ Derives .items ks xs := by
  obtain ⟨hs, hlt⟩ := spans_of_after? hcomma
  rw [more_eq, hcomma] at h
  dsimp only at h
  split at h
  · obtain ⟨⟨x, rest₁⟩, hx, hmore⟩ := Option.bind_eq_some_iff.mp h
    obtain ⟨ks, hs', hd⟩ := derives_of_read .or rest hx
    have hle := hs'.length_le
    obtain ⟨⟨others, rest₂⟩, hothers, ⟨⟩⟩ := Option.map_eq_some_iff.mp hmore
    cases hcomma₁ : after? (.mark .comma) rest₁ with
    | none =>
      dsimp only at hothers
      rw [more_eq, hcomma₁] at hothers
      cases hothers
      exact ⟨ks, hs.trans hs', .oneItem hd⟩
    | some rest₃ =>
      obtain ⟨ks', hs'', hd'⟩ := derives_of_more rest₁ hcomma₁ hothers
      exact ⟨_, hs.trans (hs'.trans hs''), .moreItems hd hd'⟩
  · cases h
    exact ⟨[], hs, .noItems⟩
termination_by 16 * ts.length
decreasing_by all_goals (simp only [Precedence.rank] at *; omega)

/-- Items before a closing bracket are derived. -/
theorem derives_of_items (b : Bracket) (ts : List Token) {xs : List Expression}
    {rest : List Token} (h : items b ts = some (xs, rest)) :
    ∃ ks, Spans ts (ks ++ [Kind.mark (.closing b)]) rest ∧ Derives .items ks xs := by
  rw [items_eq] at h
  split at h
  · rename_i hclosing
    cases h
    exact ⟨[], (spans_of_after? hclosing).1, .noItems⟩
  · obtain ⟨⟨x, rest₁⟩, hx, hmore⟩ := Option.bind_eq_some_iff.mp h
    obtain ⟨ks, hs, hd⟩ := derives_of_read .or ts hx
    have hle := hs.length_le
    dsimp only at hmore
    split at hmore
    · rename_i rest₂ hcomma
      obtain ⟨hs₁, hlt⟩ := spans_of_after? hcomma
      obtain ⟨⟨others, rest₃⟩, hothers, ⟨⟩⟩ := Option.map_eq_some_iff.mp hmore
      obtain ⟨ks', hs', hd'⟩ := derives_of_items b rest₂ hothers
      refine ⟨_, ?_, .moreItems hd hd'⟩
      simpa using hs.trans (hs₁.trans hs')
    · obtain ⟨rest₂, hclosing, ⟨⟩⟩ := Option.map_eq_some_iff.mp hmore
      exact ⟨ks, hs.trans (spans_of_after? hclosing).1, .oneItem hd⟩
termination_by 16 * ts.length + 11
decreasing_by all_goals (simp only [Precedence.rank] at *; omega)

/-- Further entries of a dictionary are derived, if there is a comma before them. -/
theorem derives_of_entries (ts : List Token) {es : List (Expression × Expression)}
    {rest : List Token} (h : entries ts = some (es, rest)) :
    (es = [] ∧ Spans ts [.mark (.closing .curly)] rest) ∨
      ∃ ks, Spans ts (.mark .comma :: (ks ++ [Kind.mark (.closing .curly)])) rest ∧
        Derives .entries ks es := by
  rw [entries_eq] at h
  split at h
  · rename_i rest₁ hcomma
    obtain ⟨hs₁, hlt₁⟩ := spans_of_after? hcomma
    split at h
    · rename_i hclosing
      cases h
      exact .inr ⟨[], hs₁.trans (spans_of_after? hclosing).1, .noEntries⟩
    · obtain ⟨⟨k, rest₂⟩, hk, hvalue⟩ := Option.bind_eq_some_iff.mp h
      obtain ⟨ks, hs₂, hd⟩ := derives_of_read .or rest₁ hk
      have hle₂ := hs₂.length_le
      dsimp only at hvalue
      obtain ⟨rest₃, hcolon, hvalue⟩ := Option.bind_eq_some_iff.mp hvalue
      obtain ⟨hs₃, hlt₃⟩ := spans_of_after? hcolon
      obtain ⟨⟨v, rest₄⟩, hv, hmore⟩ := Option.bind_eq_some_iff.mp hvalue
      obtain ⟨ks', hs₄, hd'⟩ := derives_of_read .or rest₃ hv
      have hle₄ := hs₄.length_le
      obtain ⟨⟨others, rest₅⟩, hothers, ⟨⟩⟩ := Option.map_eq_some_iff.mp hmore
      obtain ⟨rfl, hs₅⟩ | ⟨ks'', hs₅, hd''⟩ := derives_of_entries rest₄ hothers
      · refine .inr ⟨_, ?_, .oneEntry hd hd'⟩
        simpa using hs₁.trans (hs₂.trans (hs₃.trans (hs₄.trans hs₅)))
      · refine .inr ⟨_, ?_, .moreEntries hd hd' hd''⟩
        simpa using hs₁.trans (hs₂.trans (hs₃.trans (hs₄.trans hs₅)))
  · obtain ⟨rest₁, hclosing, ⟨⟩⟩ := Option.map_eq_some_iff.mp h
    exact .inl ⟨rfl, (spans_of_after? hclosing).1⟩
termination_by 16 * ts.length
decreasing_by all_goals (simp only [Precedence.rank] at *; omega)

end

end Growth.Code
