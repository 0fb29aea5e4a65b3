import Growth.Proofs.Pseudo.Words

/-! What reading gives, without its bounds: a value and the tokens left, or nothing. Reading from
`ts` spells a property when every value it gives has it together with the words that were taken. -/

namespace Growth.Pseudo

namespace Reading

variable {α β : Type} {ts : List Token}

/-- The value and the tokens after it, if reading came to an end. -/
def value? : Reading α ts → Option (α × List Token)
  | done value rest _ => some (value, rest)
  | stuck _ _ => none

@[simp] theorem value?_done (v : α) (rest : List Token) (h : rest <:+ ts) :
    (Reading.done v rest h).value? = some (v, rest) := rfl

@[simp] theorem value?_stuck (rest : List Token) (h : rest <:+ ts) :
    (Reading.stuck rest h : Reading α ts).value? = none := rfl

@[simp] theorem value?_widen {rest : List Token} (h : rest <:+ ts) (r : Reading α rest) :
    (r.widen h).value? = r.value? := by
  cases r <;> rfl

@[simp] theorem value?_past (t : Token) (r : Reading α ts) : (r.past t).value? = r.value? :=
  value?_widen _ r

@[simp] theorem value?_map (f : α → β) (r : Reading α ts) :
    (r.map f).value? = r.value?.map fun p => (f p.1, p.2) := by
  cases r <;> rfl

theorem value?_bind (r : Reading α ts) (next : α → (rest : List Token) → Reading β rest) :
    (r.bind fun a rest _ => next a rest).value? = r.value?.bind fun p => (next p.1 p.2).value? := by
  cases r with
  | done a rest h => exact value?_widen h _
  | stuck => rfl

/-- Reading goes on with what the first step left. -/
theorem value?_bind_of_done {r : Reading α ts} {a : α} {rest : List Token}
    (hr : r.value? = some (a, rest))
    (next : α → (rest : List Token) → rest <:+ ts → Reading β rest) :
    ∃ h, (r.bind next).value? = (next a rest h).value? := by
  cases r with
  | stuck => exact nomatch hr
  | done a' rest' h =>
    cases hr
    exact ⟨h, value?_widen h _⟩

/-- Every value that reading gives has the property `P` together with the words taken for it. -/
def Spells (r : Reading α ts) (P : α → List Word → Prop) : Prop :=
  ∀ v rest, r.value? = some (v, rest) → ∃ ws, ts.map Token.word = ws ++ rest.map Token.word ∧ P v ws

variable {P : α → List Word → Prop} {Q : β → List Word → Prop}

theorem Spells.done {v : α} (h : P v []) :
    (Reading.done v ts (List.suffix_refl _)).Spells P := by
  rintro v rest ⟨⟩
  exact ⟨[], rfl, h⟩

theorem Spells.stuck {rest : List Token} {h : rest <:+ ts} :
    (Reading.stuck rest h : Reading α ts).Spells P :=
  fun _ _ h => nomatch h

theorem Spells.widen {rest : List Token} {h : rest <:+ ts} {taken : List Word}
    (ht : ts.map Token.word = taken ++ rest.map Token.word) {r : Reading α rest}
    (hr : r.Spells fun v ws => P v (taken ++ ws)) : (r.widen h).Spells P := by
  intro v rest' hv
  rw [value?_widen] at hv
  obtain ⟨ws, hws, hp⟩ := hr v rest' hv
  exact ⟨taken ++ ws, by rw [ht, hws, List.append_assoc], hp⟩

theorem Spells.past {t : Token} {r : Reading α ts}
    (h : r.Spells fun v ws => P v (t.word :: ws)) : (r.past t).Spells P := by
  have hword : (t :: ts).map Token.word = [t.word] ++ ts.map Token.word := rfl
  exact Spells.widen hword h

theorem Spells.map {f : α → β} {r : Reading α ts} (hr : r.Spells P)
    (h : ∀ v ws, P v ws → Q (f v) ws) : (r.map f).Spells Q := by
  intro v rest hv
  rw [value?_map, Option.map_eq_some_iff] at hv
  obtain ⟨⟨a, rest'⟩, ha, heq⟩ := hv
  cases heq
  obtain ⟨ws, hws, hp⟩ := hr a _ ha
  exact ⟨ws, hws, h a ws hp⟩

/-- What is read in two steps takes the words of both. -/
theorem Spells.bind {r : Reading α ts}
    {next : α → (rest : List Token) → rest <:+ ts → Reading β rest} (hr : r.Spells P)
    (h : ∀ a ws rest hrest, P a ws → (next a rest hrest).Spells fun b ws' => Q b (ws ++ ws')) :
    (r.bind next).Spells Q := by
  intro v rest hv
  cases r with
  | stuck => exact nomatch hv
  | done a rest' h' =>
    obtain ⟨ws, hws, hp⟩ := hr a rest' rfl
    obtain ⟨ws', hws', hq⟩ := h a ws rest' h' hp v rest (by simpa [Reading.bind] using hv)
    exact ⟨ws ++ ws', by rw [hws, hws', List.append_assoc], hq⟩

theorem Spells.mono {r : Reading α ts} {Q : α → List Word → Prop} (hr : r.Spells P)
    (h : ∀ v ws, P v ws → Q v ws) : r.Spells Q := by
  intro v rest hv
  obtain ⟨ws, hws, hp⟩ := hr v rest hv
  exact ⟨ws, hws, h v ws hp⟩

end Reading

@[simp] theorem expect_value?_cons (kind : Kind) (t : Token) (ts : List Token) :
    (expect kind (t :: ts)).value? = if t.kind = kind then some (t, ts) else none := by
  by_cases h : t.kind = kind <;> simp [expect, h]

@[simp] theorem expect_value?_nil (kind : Kind) : (expect kind []).value? = none := rfl

theorem expect_spells (kind : Kind) (ts : List Token) :
    (expect kind ts).Spells fun t ws => t.kind = kind ∧ ws = [t.word] := by
  intro t rest h
  cases ts with
  | nil => exact nomatch h
  | cons t' ts =>
    by_cases hk : t'.kind = kind
    · simp only [expect_value?_cons, hk, if_true, Option.some.injEq, Prod.mk.injEq] at h
      obtain ⟨rfl, rfl⟩ := h
      exact ⟨[t'.word], rfl, hk, rfl⟩
    · simp [hk] at h

/-- The word of a token that is neither a number nor a name. -/
theorem Token.word_of_kind {t : Token} {k : Kind} (h : t.kind = k) (hn : k ≠ .number)
    (hm : k ≠ .name) : t.word = k.word := by
  simp [Token.word, Kind.word, h, hn, hm]

end Growth.Pseudo
