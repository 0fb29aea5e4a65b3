import Growth.Proofs.Code.ReadsStatement

/-! Kinds of tokens that are read as statements with bodies, and lines that a word for such a
statement spoils. -/

namespace Growth.Code

open Outcome

/-! ### Headers -/

/-- The name that a token of the kind is. -/
def Kind.name? : Kind → Option String
  | .identifier n => some n
  | _ => none

theorem identifier?_cons (t : Token) (ts : List Token) :
    identifier? (t :: ts) = t.kind.name?.map fun n => (n, ts) := by
  obtain ⟨kind, place, stop⟩ := t
  cases kind <;> rfl

/-- The kinds `ks` are read as parameters up to and including the closing parenthesis, or not at
all. -/
def ReadsParameters (ks : List Kind) (o : Option (List String)) : Prop :=
  ∀ ts r, ts.map Token.kind = ks → (readParameters (ts ++ r)).value? = o.map fun ps => (ps, r)

namespace ReadsParameters

variable {k : Kind} {ks : List Kind} {o : Option (List String)}

theorem nil : ReadsParameters [.mark (.closing .round)] (some []) := by
  intro ts r hts
  obtain ⟨place, stop, rfl⟩ := kinds_singleton hts
  rw [List.singleton_append, readParameters]
  rfl

theorem value?_of_not_name {t : Token} (hk : t.kind ≠ .mark (.closing .round))
    (hn : t.kind.name? = none) (ts : List Token) : (readParameters (t :: ts)).value? = none := by
  obtain ⟨kind, place, stop⟩ := t
  rw [readParameters]
  · rfl
  · rintro _ _ _ ⟨⟩
    exact hk rfl
  · rintro _ _ _ _ _ _ ⟨⟩
    exact nomatch hn
  · rintro _ _ _ _ ⟨⟩
    exact nomatch hn

theorem one (hk : k ≠ .mark (.closing .round)) :
    ReadsParameters [k, .mark (.closing .round)] (k.name?.map fun n => [n]) := by
  intro ts r hts
  obtain ⟨place, stop, ts', rfl, hts'⟩ := kinds_cons hts
  obtain ⟨place', stop', rfl⟩ := kinds_singleton hts'
  cases hn : k.name? with
  | none => exact value?_of_not_name hk hn _
  | some n =>
    cases k with
    | identifier =>
      cases hn
      rw [List.cons_append, List.cons_append, readParameters]
      · rw [value?_past, value?_map, expectClosing_value?, after?_self]
        rfl
      · nofun
    | _ => exact nomatch hn

theorem cons (hk : k ≠ .mark (.closing .round)) (h : ReadsParameters ks o) :
    ReadsParameters (k :: .mark .comma :: ks) (k.name?.bind fun n => o.map fun ps => n :: ps) := by
  intro ts r hts
  obtain ⟨place, stop, ts₁, rfl, hts₁⟩ := kinds_cons hts
  obtain ⟨place', stop', ts₂, rfl, hts₂⟩ := kinds_cons hts₁
  cases hn : k.name? with
  | none => exact value?_of_not_name hk hn _
  | some n =>
    cases k with
    | identifier =>
      cases hn
      rw [List.cons_append, List.cons_append, readParameters, value?_past, value?_past, value?_map,
        h ts₂ r hts₂]
      simp [Function.comp_def]
    | _ => exact nomatch hn

end ReadsParameters

/-! ### Branches -/

theorem simple_of_not_starts {t : Token} (ht : t.kind.starts = false)
    (hown : ∀ k : Keyword, k.isOwn = true → t.kind ≠ .keyword k) (ts : List Token) :
    simple (t :: ts) = none := by
  rw [simple_of_expression hown]
  cases hread : read .tuple (t :: ts) with
  | none => rfl
  | some p => cases ht.symm.trans (starts_of_read hread)

/-- No statement begins with the word for a further condition. -/
theorem block_of_elif {t : Token} (ht : t.kind = .keyword .elifKw) (ts : List Token) :
    block (t :: ts) = none := by
  have hbody : ∀ k : Keyword, k.hasBody = true → t.kind ≠ .keyword k := by
    rw [ht]
    rintro _ hk ⟨⟩
    exact nomatch hk
  have hown : ∀ k : Keyword, k.isOwn = true → t.kind ≠ .keyword k := by
    rw [ht]
    rintro _ hk ⟨⟩
    exact nomatch hk
  rw [block_cons (by rw [ht]; rfl), statement_line hbody,
    line_of_none (simple_of_not_starts (by rw [ht]; rfl) hown ts)]
  rfl

theorem branch_of_condition {ts : List Token} (h : condition ts = none) : branch ts = none := by
  rw [branch_eq, h]
  rfl

namespace ReadsBranch

variable {ks ks' ks'' : List Kind} {o : Option Expression} {b b' : Option (List Statement)}
  {s : Option Statement}

theorem plain (hc : ReadsCondition ks o) (hs : ReadsSuite ks' b) :
    ReadsBranch (ks ++ ks') (o.bind fun x => b.map fun b => .branch x b []) := by
  intro ts r hts hr
  obtain ⟨tc, tb, rfl, htc, htb⟩ := List.map_eq_append_iff.mp hts
  rw [List.append_assoc, branch_eq, hc tc _ htc]
  cases o with
  | none => rfl
  | some x =>
    simp only [Option.map_some, Option.bind_some]
    rw [hs tb r htb]
    cases b with
    | none => rfl
    | some b =>
      simp only [Option.map_some, Option.bind_some]
      cases r with
      | nil => rfl
      | cons t r =>
        obtain ⟨helse, helif⟩ := hr t r rfl
        by_cases hk : t.kind = .keyword .elifKw
        · simp [after?, hk, branch_of_condition (helif hk), block_of_elif hk]
        · simp [after?, hk, helse]

/-- A branch with a further condition. -/
theorem chain (hc : ReadsCondition ks o) (hs : ReadsSuite ks' b) (h : ReadsBranch ks'' s) :
    ReadsBranch (ks ++ (ks' ++ .keyword .elifKw :: ks''))
      (o.bind fun x => b.bind fun b => s.map fun s => .branch x b [s]) := by
  intro ts r hts hr
  obtain ⟨tc, tl, rfl, htc, htl⟩ := List.map_eq_append_iff.mp hts
  obtain ⟨tb, te, rfl, htb, hte⟩ := List.map_eq_append_iff.mp htl
  obtain ⟨place, stop, ts', rfl, hts'⟩ := kinds_cons hte
  rw [List.append_assoc, branch_eq, hc tc _ htc]
  cases o with
  | none => rfl
  | some x =>
    simp only [Option.map_some, Option.bind_some]
    rw [List.append_assoc, hs tb _ htb]
    cases b with
    | none => rfl
    | some b =>
      have hread := h ts' r hts' hr
      simp only [List.cons_append, Option.map_some, Option.bind_some, after?_self]
      rw [Option.bind_map]
      have hmap := congrArg (Option.map fun q : Statement × List Statement × List Token =>
        ((Statement.branch x b [q.1], q.2) : Statement × List Statement × List Token)) hread
      rw [Option.map_bind] at hmap
      refine (Eq.trans ?_ hmap).trans ?_
      · simp [Function.comp_def, Option.map_map]
      · cases s <;> simp [Function.comp_def]

/-- A branch with another body. -/
theorem choice (hc : ReadsCondition ks o) (hs : ReadsSuite ks' b) (hs' : ReadsSuite ks'' b') :
    ReadsBranch (ks ++ (ks' ++ .keyword .elseKw :: .mark .colon :: ks''))
      (o.bind fun x => b.bind fun b => b'.map fun b' => .branch x b b') := by
  intro ts r hts _
  obtain ⟨tc, tl, rfl, htc, htl⟩ := List.map_eq_append_iff.mp hts
  obtain ⟨tb, te, rfl, htb, hte⟩ := List.map_eq_append_iff.mp htl
  obtain ⟨place, stop, ts₁, rfl, hts₁⟩ := kinds_cons hte
  obtain ⟨place', stop', ts₂, rfl, hts₂⟩ := kinds_cons hts₁
  rw [List.append_assoc, branch_eq, hc tc _ htc]
  cases o with
  | none => rfl
  | some x =>
    simp only [Option.map_some, Option.bind_some]
    rw [List.append_assoc, hs tb _ htb]
    cases b with
    | none => rfl
    | some b =>
      simp only [List.cons_append, Option.map_some, Option.bind_some, after?_self]
      rw [after?_ne (by decide)]
      simp only [after?_self, Option.bind_some]
      rw [hs' ts₂ r hts₂]
      cases b' <;> rfl

end ReadsBranch

/-! ### Statements with bodies -/

namespace ReadsBlock

variable {k : Kind} {ks ks' : List Kind} {ps : Option (List String)} {o : Option Expression}
  {b : Option (List Statement)}

theorem function (hp : ReadsParameters ks ps) (hs : ReadsSuite ks' b) :
    ReadsBlock (.keyword .defKw :: k :: .mark (.opening .round) :: (ks ++ .mark .colon :: ks'))
      (k.name?.bind fun n => ps.bind fun ps => b.map fun b => [.function n ps b]) := by
  refine of_statement rfl ⟨nofun, nofun⟩ fun t ts r ht hts _ => ?_
  obtain ⟨place, stop, ts₁, rfl, hts₁⟩ := kinds_cons hts
  obtain ⟨place', stop', ts₂, rfl, hts₂⟩ := kinds_cons hts₁
  obtain ⟨tp, tc, rfl, htp, htc⟩ := List.map_eq_append_iff.mp hts₂
  obtain ⟨place'', stop'', tb, rfl, htb⟩ := kinds_cons htc
  rw [statement_function ht, readSignature_value?, List.cons_append, identifier?_cons]
  cases k.name? with
  | none => rfl
  | some n =>
    simp only [List.cons_append, List.append_assoc, Option.map_some, Option.bind_some, after?_self]
    rw [hp tp _ htp]
    cases ps with
    | none => rfl
    | some ps =>
      simp only [Option.map_some, Option.bind_some, after?_self]
      rw [hs tb r htb]
      cases b <;> rfl

theorem branch {s : Option Statement} (h : ReadsBranch ks s) :
    ReadsBlock (.keyword .ifKw :: ks) (s.map fun s => [s]) := by
  refine of_statement rfl ⟨nofun, nofun⟩ fun t ts r ht hts hr => ?_
  have hread := congrArg (Option.map fun q : Statement × List Statement × List Token =>
    ((q.1 :: q.2.1, q.2.2) : List Statement × List Token)) (h ts r hts hr)
  rw [statement_branch ht, Option.bind_map]
  rw [Option.map_bind] at hread
  refine (Eq.trans ?_ hread).trans ?_
  · simp [Function.comp_def, Option.map_map]
  · cases s <;> simp [Function.comp_def]

theorem whileLoop (hc : ReadsCondition ks o) (hs : ReadsSuite ks' b) :
    ReadsBlock (.keyword .whileKw :: (ks ++ ks'))
      (o.bind fun x => b.map fun b => [.whileLoop x b]) := by
  refine of_statement rfl ⟨nofun, nofun⟩ fun t ts r ht hts _ => ?_
  obtain ⟨tc, tb, rfl, htc, htb⟩ := List.map_eq_append_iff.mp hts
  rw [statement_while ht, List.append_assoc, hc tc _ htc]
  cases o with
  | none => rfl
  | some x =>
    simp only [Option.map_some, Option.bind_some]
    rw [hs tb r htb]
    cases b <;> rfl

theorem forLoop (h : Reads .tuple ks o) (hs : ReadsSuite ks' b) :
    ReadsBlock (.keyword .forKw :: k :: .keyword .inKw :: (ks ++ .mark .colon :: ks'))
      (k.name?.bind fun n => o.bind fun x => b.map fun b => [.forLoop n x b]) := by
  refine of_statement rfl ⟨nofun, nofun⟩ fun t ts r ht hts _ => ?_
  obtain ⟨place, stop, ts₁, rfl, hts₁⟩ := kinds_cons hts
  obtain ⟨place', stop', ts₂, rfl, hts₂⟩ := kinds_cons hts₁
  obtain ⟨tx, tc, rfl, htx, htc⟩ := List.map_eq_append_iff.mp hts₂
  obtain ⟨place'', stop'', tb, rfl, htb⟩ := kinds_cons htc
  rw [statement_for ht, readCounter_value?, List.cons_append, identifier?_cons]
  cases k.name? with
  | none => rfl
  | some n =>
    simp only [List.cons_append, List.append_assoc, Option.map_some, Option.bind_some, after?_self]
    rw [h.read_of_stops htx (stops_cons.mpr (Nat.zero_le _))]
    cases o with
    | none => rfl
    | some x =>
      simp only [Option.map_some, Option.bind_some, after?_self]
      rw [hs tb r htb]
      cases b <;> rfl

end ReadsBlock

/-! ### Lines that are no statement -/

/-- The words to which nothing can be assigned because they begin another statement, or none. -/
def Keyword.spoils : Keyword → Bool
  | elifKw | whileKw | defKw | passKw | breakKw | continueKw => true
  | _ => false

/-- The kinds of an index after a name, if there is one. -/
def IndexKinds (ks : List Kind) : Prop :=
  ks = [] ∨ ∃ ks' o, ks = .mark (.opening .square) :: ks' ∧ ReadsItems .square ks' o

section Spoiled

variable {index ks : List Kind} {ts : List Token}

/-- Where an assignment goes on after a name, a condition does not. -/
theorem condition_of_index (h : IndexKinds index)
    (hts : ts.map Token.kind = index ++ .mark .equal :: ks) : condition ts = none := by
  rw [condition_eq]
  rcases h with rfl | ⟨ks', o, rfl, hread⟩
  · obtain ⟨place, stop, ts', rfl, -⟩ := kinds_cons hts
    cases hr : read .or (⟨.mark .equal, place, stop⟩ :: ts') with
    | none => rfl
    | some p => exact nomatch starts_of_read hr
  · obtain ⟨tl, tr, rfl, htl, htr⟩ := List.map_eq_append_iff.mp hts
    obtain ⟨place, stop, tr', rfl, -⟩ := kinds_cons htr
    have hlist : Reads .or (.mark (.opening .square) :: ks') (o.map .list) :=
      (Reads.list hread).loosen (by decide)
    rw [hlist.read_of_stops htl (stops_cons.mpr (Nat.zero_le _))]
    cases o <;> simp [after?]

theorem exists_cons_of_index (h : IndexKinds index)
    (hts : ts.map Token.kind = index ++ .mark .equal :: ks) :
    ∃ t ts', ts = t :: ts' ∧ (t.kind = .mark .equal ∨ t.kind = .mark (.opening .square)) := by
  rcases h with rfl | ⟨ks', o, rfl, -⟩
  · obtain ⟨place, stop, ts', rfl, -⟩ := kinds_cons hts
    exact ⟨_, ts', rfl, .inl rfl⟩
  · obtain ⟨place, stop, ts', rfl, -⟩ := kinds_cons hts
    exact ⟨_, ts', rfl, .inr rfl⟩

theorem line_of_word {t : Token} {s : Statement} (hs : ∀ ts, simple (t :: ts) = some (s, ts))
    (h : IndexKinds index) (hts : ts.map Token.kind = index ++ .mark .equal :: ks) :
    line (t :: ts) = none := by
  obtain ⟨t', ts', rfl, hk⟩ := exists_cons_of_index h hts
  refine line_of_other (hs _) ?_ ?_ <;> rcases hk with hk | hk <;> simp [hk]

/-- No line assigns to a word that begins another statement, or none. -/
theorem ReadsBlock.spoiled {w : Keyword} (hw : w.spoils = true) (h : IndexKinds index) :
    ReadsBlock (.keyword w :: (index ++ .mark .equal :: ks)) none := by
  have hcondition : ∀ ts r, ts.map Token.kind = index ++ .mark .equal :: ks →
      condition (ts ++ r) = none := by
    intro ts r hts
    have hmore : (ts ++ r).map Token.kind = index ++ .mark .equal :: (ks ++ r.map Token.kind) := by
      simp [hts]
    exact condition_of_index h hmore
  refine ⟨fun ts r hts _ => ?_, fun ts r hts _ => ?_⟩
  · obtain ⟨place, stop, ts', rfl, hts'⟩ := kinds_cons hts
    rintro _ _ ⟨⟩
    refine ⟨?_, fun _ => hcondition ts' r hts'⟩
    rintro ⟨⟩
    exact nomatch hw
  obtain ⟨place, stop, ts', rfl, hts'⟩ := kinds_cons hts
  have hts'' : (ts' ++ r).map Token.kind = index ++ .mark .equal :: (ks ++ r.map Token.kind) := by
    simp [hts']
  rw [List.cons_append]
  cases w with
  | elifKw => exact block_of_elif rfl _
  | whileKw =>
    rw [block_cons rfl, statement_while rfl, hcondition ts' r hts']
    rfl
  | defKw =>
    obtain ⟨t, ts, heq, hk⟩ := exists_cons_of_index h hts''
    have hname : t.kind.name? = none := by
      rcases hk with hk | hk <;> rw [hk] <;> rfl
    rw [block_cons rfl, statement_function rfl, readSignature_value?, heq, identifier?_cons, hname]
    rfl
  | passKw =>
    rw [block_cons rfl, statement_line (by rintro _ hk ⟨⟩; exact nomatch hk),
      line_of_word (simple_of_pass rfl) h hts'']
    rfl
  | breakKw =>
    rw [block_cons rfl, statement_line (by rintro _ hk ⟨⟩; exact nomatch hk),
      line_of_word (simple_of_break rfl) h hts'']
    rfl
  | continueKw =>
    rw [block_cons rfl, statement_line (by rintro _ hk ⟨⟩; exact nomatch hk),
      line_of_word (simple_of_continue rfl) h hts'']
    rfl
  | _ => exact nomatch hw

end Spoiled

end Growth.Code
