import Growth.Code.ReadExpression

/-! What building a tree gives, without its bounds and without the error: a value and the tokens
left, or nothing. Each reader is a plain equation between such results. -/

namespace Growth.Code

/-- A value and the tokens after it, or nothing. -/
abbrev Result (α : Type) := Option (α × List Token)

namespace Outcome

variable {α β : Type} {m n : Nat}

/-- The value and the tokens after it, if there is a value. -/
def value? : Outcome α n → Result α
  | done value rest _ => some (value, rest)
  | failed _ => none

@[simp] theorem value?_done (v : α) (rest : List Token) (h : rest.length ≤ n) :
    (Outcome.done v rest h).value? = some (v, rest) := rfl

@[simp] theorem value?_failed (e : BuildError) : (.failed e : Outcome α n).value? = none := rfl

@[simp] theorem value?_unexpected (need : Need) (ts : List Token) :
    (unexpected need ts : Outcome α n).value? = none := rfl

@[simp] theorem value?_widen (h : m ≤ n) (o : Outcome α m) : (o.widen h).value? = o.value? := by
  cases o <;> rfl

@[simp] theorem value?_past (o : Outcome α n) : o.past.value? = o.value? :=
  value?_widen _ o

@[simp] theorem value?_map (f : α → β) (o : Outcome α n) :
    (o.map f).value? = o.value?.map fun p => (f p.1, p.2) := by
  cases o <;> rfl

/-- Where the second step is known by what it gives, so is the whole. -/
theorem value?_bind {o : Outcome α n}
    {next : α → (rest : List Token) → rest.length ≤ n → Outcome β rest.length}
    {f : α → List Token → Result β} (h : ∀ a rest hrest, (next a rest hrest).value? = f a rest) :
    (o.bind next).value? = o.value?.bind fun p => f p.1 p.2 := by
  cases o with
  | done a rest hrest => exact (value?_widen hrest _).trans (h a rest hrest)
  | failed => rfl

end Outcome

open Outcome

/-- The rest of `ts` after a token of the kind. -/
def after? (kind : Kind) : List Token → Option (List Token)
  | t :: rest => if t.kind = kind then some rest else none
  | [] => none

theorem after?_eq_none {kind : Kind} {ts : List Token}
    (h : ∀ place stop rest, ts = ⟨kind, place, stop⟩ :: rest → False) : after? kind ts = none := by
  cases ts with
  | nil => rfl
  | cons t rest =>
    obtain ⟨kind', place, stop⟩ := t
    have hne : kind' ≠ kind := by
      rintro rfl
      exact h place stop rest rfl
    simp [after?, hne]

theorem after?_self {k : Kind} {place : Place} {stop : Nat} {r : List Token} :
    after? k (⟨k, place, stop⟩ :: r) = some r := by
  simp [after?]

theorem after?_ne {k k' : Kind} (h : k' ≠ k) {place : Place} {stop : Nat} {r : List Token} :
    after? k (⟨k', place, stop⟩ :: r) = none := by
  simp [after?, h]

theorem expect_value? (kind : Kind) (need : Need) (ts : List Token) :
    (expect kind need ts).value? = (after? kind ts).map fun rest => ((), rest) := by
  cases ts with
  | nil => rfl
  | cons t rest =>
    by_cases h : t.kind = kind <;> simp [expect, after?, h]

theorem expectClosing_value? (b : Bracket) (ts : List Token) :
    (expectClosing b ts).value? = (after? (.mark (.closing b)) ts).map fun rest => ((), rest) :=
  expect_value? _ _ ts

/-- What is read at a level. -/
def read (level : Precedence) (ts : List Token) : Result Expression :=
  (readAt level ts).value?

/-- What is read of the operands joined to `left`. -/
def joined (level : Precedence) (left : Expression) (ts : List Token) : Result Expression :=
  (readJoined level left ts).value?

/-- What is read of the calls, indices and fields after `x`. -/
def suffixed (x : Expression) (ts : List Token) : Result Expression :=
  (readSuffixes x ts).value?

/-- What is read of the items before a closing bracket. -/
def items (b : Bracket) (ts : List Token) : Result (List Expression) :=
  (readItems b ts).value?

/-- What is read of the further operands of a comparison. -/
def compared (ts : List Token) : Result (List (Comparison × Expression)) :=
  (readCompared ts).value?

/-- What is read of the further entries of a dictionary. -/
def entries (ts : List Token) : Result (List (Expression × Expression)) :=
  (readEntries ts).value?

/-! ### Levels -/

theorem read_or (ts : List Token) :
    read .or ts = (read .and ts).bind fun p => joined .or p.1 p.2 := by
  rw [read, readAt, value?_bind fun _ _ _ => rfl]
  rfl

theorem read_and (ts : List Token) :
    read .and ts = (read .not ts).bind fun p => joined .and p.1 p.2 := by
  rw [read, readAt, value?_bind fun _ _ _ => rfl]
  rfl

theorem read_sum (ts : List Token) :
    read .sum ts = (read .product ts).bind fun p => joined .sum p.1 p.2 := by
  rw [read, readAt, value?_bind fun _ _ _ => rfl]
  rfl

theorem read_product (ts : List Token) :
    read .product ts = (read .sign ts).bind fun p => joined .product p.1 p.2 := by
  rw [read, readAt, value?_bind fun _ _ _ => rfl]
  rfl

theorem read_not (ts : List Token) :
    read .not ts = match after? (.keyword .notKw) ts with
      | some rest => (read .not rest).map fun p => (.unary .not p.1, p.2)
      | none => read .comparison ts := by
  cases ts with
  | nil => rw [read, readAt]; rfl; rintro _ _ _ ⟨⟩
  | cons t rest =>
    obtain ⟨kind, place, stop⟩ := t
    by_cases h : kind = .keyword .notKw
    · subst h
      rw [read, readAt, value?_past, value?_map]
      simp [after?, read]
    · rw [read, readAt]
      · simp [after?, h, read]
      · rintro place stop rest ⟨⟩
        exact h rfl

theorem read_comparison (ts : List Token) :
    read .comparison ts = (read .sum ts).bind fun p => (compared p.2).map fun q =>
      (if q.1.isEmpty then p.1 else .compare p.1 q.1, q.2) := by
  rw [read, readAt, value?_bind fun _ _ _ => value?_map _ _]
  rfl

theorem read_sign (t : Token) (ts : List Token) :
    read .sign (t :: ts) = match sign? t.kind with
      | some op => (read .sign ts).map fun p => (.unary op p.1, p.2)
      | none => read .power (t :: ts) := by
  rw [read, readAt]
  split <;> simp_all [read]

theorem read_power (ts : List Token) :
    read .power ts = (read .primary ts).bind fun p =>
      match after? (.mark (.operator .power)) p.2 with
      | some rest => (read .sign rest).map fun q => (.binary p.1 .power q.1, q.2)
      | none => some p := by
  rw [read, readAt, value?_bind (f := fun base rest =>
    match after? (.mark (.operator .power)) rest with
      | some rest => (read .sign rest).map fun q => (.binary base .power q.1, q.2)
      | none => some (base, rest))]
  · rfl
  · intro base rest _
    split
    · simp [after?, read]
    · rename_i hne
      rw [after?_eq_none fun place stop rest' h => by subst h; exact hne _ _ _ _ rfl HEq.rfl]
      rfl

theorem read_primary (ts : List Token) :
    read .primary ts = (readAtom ts).value?.bind fun p => suffixed p.1 p.2 := by
  rw [read, readAt, value?_bind fun _ _ _ => rfl]
  rfl

/-- A tuple without parentheses goes on at a comma. -/
theorem read_tuple (ts : List Token) :
    read .tuple ts = (read .or ts).bind fun p => match after? (.mark .comma) p.2 with
      | some _ => (readMore p.2).value?.map fun q => (.tuple (p.1 :: q.1), q.2)
      | none => some p := by
  rw [read, readAt, value?_bind (f := fun first rest => match after? (.mark .comma) rest with
      | some _ => (readMore rest).value?.map fun q => (.tuple (first :: q.1), q.2)
      | none => some (first, rest))]
  · rfl
  · intro first rest _
    cases rest with
    | nil => rfl
    | cons t rest =>
      by_cases h : t.kind = .mark .comma <;> simp [after?, h]

/-! ### Joined operands -/

/-- The level of the operands at a level that groups to the left. -/
def Precedence.operand : Precedence → Precedence
  | .or => .and
  | .and => .not
  | .sum => .product
  | _ => .sign

@[simp] theorem joined_nil (level : Precedence) (left : Expression) :
    joined level left [] = some (left, []) := by
  rw [joined, readJoined]
  rfl

theorem joined_cons (level : Precedence) (left : Expression) (t : Token) (ts : List Token) :
    joined level left (t :: ts) = match joining? level t.kind with
      | none => some (left, t :: ts)
      | some join => (read level.operand ts).bind fun p => joined level (join left p.1) p.2 := by
  rw [joined, readJoined.eq_def]
  dsimp only
  cases joining? level t.kind with
  | none => rfl
  | some join =>
    dsimp only
    rw [value?_past, value?_bind fun _ _ _ => rfl]
    cases level <;> rfl

theorem compared_eq (ts : List Token) :
    compared ts = match comparison? ts with
      | none => some ([], ts)
      | some (op, ⟨rest, _⟩) => (read .sum rest).bind fun p =>
        (compared p.2).map fun q => ((op, p.1) :: q.1, q.2) := by
  rw [compared, readCompared]
  rcases comparison? ts with _ | ⟨op, rest, h⟩
  · rfl
  · dsimp only
    rw [value?_widen, value?_bind fun _ _ _ => value?_map _ _]
    rfl

/-! ### Suffixes -/

theorem suffixed_call (x : Expression) {t : Token} (ht : t.kind = .mark (.opening .round))
    (ts : List Token) :
    suffixed x (t :: ts) = (items .round ts).bind fun p => suffixed (.call x p.1) p.2 := by
  obtain ⟨kind, place, stop⟩ := t
  cases ht
  rw [suffixed, readSuffixes, value?_past, value?_bind fun _ _ _ => rfl]
  rfl

theorem suffixed_item (x : Expression) {t : Token} (ht : t.kind = .mark (.opening .square))
    (ts : List Token) :
    suffixed x (t :: ts) = (read .tuple ts).bind fun p =>
      (after? (.mark (.closing .square)) p.2).bind fun rest => suffixed (.item x p.1) rest := by
  obtain ⟨kind, place, stop⟩ := t
  cases ht
  rw [suffixed, readSuffixes, value?_past, value?_bind fun index rest _ =>
    (value?_bind fun _ _ _ => rfl).trans (by rw [expectClosing_value?, Option.bind_map])]
  rfl

theorem suffixed_field (x : Expression) {t : Token} (ht : t.kind = .mark .dot)
    (ts : List Token) :
    suffixed x (t :: ts) =
      (expectIdentifier ts).value?.bind fun p => suffixed (.field x p.1) p.2 := by
  obtain ⟨kind, place, stop⟩ := t
  cases ht
  rw [suffixed, readSuffixes, value?_past, value?_bind fun _ _ _ => rfl]
  rfl

/-- A kind that goes on with what can be called. -/
def Kind.isSuffix : Kind → Bool
  | .mark (.opening .round) | .mark (.opening .square) | .mark .dot => true
  | _ => false

theorem suffixed_of_not_isSuffix (x : Expression) {ts : List Token}
    (h : ∀ t ∈ ts.head?, t.kind.isSuffix = false) : suffixed x ts = some (x, ts) := by
  rw [suffixed, readSuffixes.eq_def]
  split
  · cases h _ rfl
  · cases h _ rfl
  · cases h _ rfl
  · rfl

/-! ### Items and entries -/

theorem items_eq (b : Bracket) (ts : List Token) :
    items b ts = match after? (.mark (.closing b)) ts with
      | some rest => some ([], rest)
      | none => (read .or ts).bind fun p => match after? (.mark .comma) p.2 with
        | some rest => (items b rest).map fun q => (p.1 :: q.1, q.2)
        | none => (after? (.mark (.closing b)) p.2).map fun rest => ([p.1], rest) := by
  have hexpect := expectClosing_value? b ts
  rw [items, readItems]
  cases he : expectClosing b ts with
  | done v rest h =>
    rw [he, value?_done] at hexpect
    obtain ⟨rest', hrest, heq⟩ := Option.map_eq_some_iff.mp hexpect.symm
    cases heq
    simp [hrest]
  | failed e =>
    rw [he, value?_failed] at hexpect
    rw [Option.map_eq_none_iff.mp hexpect.symm]
    rw [value?_bind (f := fun x rest => match after? (.mark .comma) rest with
        | some rest => (items b rest).map fun q => (x :: q.1, q.2)
        | none => (after? (.mark (.closing b)) rest).map fun rest => ([x], rest))]
    · rfl
    · intro x rest _
      split
      · simp [after?, items]
      · rename_i hne
        rw [after?_eq_none fun place stop rest' h => by subst h; exact hne _ _ _ _ rfl HEq.rfl,
          value?_map, expectClosing_value?, Option.map_map]
        rfl

/-! ### Atoms -/

/-- The expression a token is whatever follows it. A string is none: those side by side are one. -/
def Kind.alone? : Kind → Option Expression
  | .integer lexeme => some (.integer lexeme)
  | .float value => some (.float value)
  | .identifier name => some (.name name)
  | .keyword .trueKw => some (.boolean true)
  | .keyword .falseKw => some (.boolean false)
  | .keyword .noneKw => some .none
  | _ => none

theorem readAtom_of_alone {k : Kind} {x : Expression} (h : k.alone? = some x) (place : Place)
    (stop : Nat) (ts : List Token) : (readAtom (⟨k, place, stop⟩ :: ts)).value? = some (x, ts) := by
  unfold Kind.alone? at h
  split at h
  case h_7 => exact nomatch h
  all_goals
    cases h
    rw [readAtom]
    rfl

/-- What an opening brace begins, unless it is closed at once. -/
theorem readAtom_curly {ts : List Token} (hc : ∀ t ∈ ts.head?, t.kind ≠ .mark (.closing .curly))
    (place : Place) (stop : Nat) :
    (readAtom (⟨.mark (.opening .curly), place, stop⟩ :: ts)).value? =
      (read .or ts).bind fun p =>
        match after? (.mark .colon) p.2, after? (.mark .comma) p.2 with
        | some rest, _ => (read .or rest).bind fun q =>
          (entries q.2).map fun e => (.dict ((p.1, q.1) :: e.1), e.2)
        | none, some rest => (items .curly rest).map fun q => (.set (p.1 :: q.1), q.2)
        | none, none =>
          (after? (.mark (.closing .curly)) p.2).map fun rest => (.set [p.1], rest) := by
  rw [readAtom]
  · rw [value?_past, value?_bind (f := fun first rest =>
      match after? (.mark .colon) rest, after? (.mark .comma) rest with
        | some rest, _ => (read .or rest).bind fun q =>
          (entries q.2).map fun e => (.dict ((first, q.1) :: e.1), e.2)
        | none, some rest => (items .curly rest).map fun q => (.set (first :: q.1), q.2)
        | none, none =>
          (after? (.mark (.closing .curly)) rest).map fun rest => (.set [first], rest))]
    · rfl
    · intro first rest _
      split
      · rw [after?_self, value?_past, value?_bind fun _ _ _ => value?_map _ _]
        rfl
      · rw [after?_ne (show Kind.mark .comma ≠ .mark .colon by simp), after?_self, value?_past,
          value?_map]
        rfl
      · rename_i hcolon hcomma
        rw [after?_eq_none fun place stop rest' h => by subst h; exact hcolon _ _ _ _ rfl HEq.rfl,
          after?_eq_none fun place stop rest' h => by subst h; exact hcomma _ _ _ _ rfl HEq.rfl,
          value?_map, expectClosing_value?, Option.map_map]
        rfl
  · intro place' stop' rest heq
    exact hc ⟨_, place', stop'⟩ (by rw [heq]; rfl) rfl

end Growth.Code
