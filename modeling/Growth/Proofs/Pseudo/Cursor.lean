import Growth.Proofs.Pseudo.Acceptance

/-! Reading statements as work on a state: a cursor in the tokens, the blocks that are open around it,
and the errors met. The loop over statements has a budget of rounds and is given up when it is used
up. One round more than there are tokens is enough, and then the work gives what reading gives. On
the way it keeps a log, in which every round takes a token, blocks are left as they were found, and
nothing that a block waits for is stepped over. -/

namespace Growth.Pseudo

/-- What is noted on the way. -/
inductive Event where
  /-- A round of the loop over statements, by the tokens left before it and after it. -/
  | round (before after : List Token)
  /-- The end of the statements of a block: what ends the block, the blocks open before it was opened
  and after it was closed, and the tokens left. -/
  | closed (closing : List Kind) (before after : List (List Kind)) (left : List Token)
  /-- Tokens that were skipped after an error, with the blocks that were open. -/
  | recovered (blocks : List (List Kind)) (before after : List Token)

namespace Event

/-- A round takes a token at least. A block leaves the others as they were, at the end or at a token
that one of them or itself waits for. No token that a block waits for is skipped. -/
def Sound : Event → Prop
  | round before after => after <:+ before ∧ after.length < before.length
  | closed closing before after left =>
    after = before ∧ ∀ t ∈ left.head?, ∃ kinds ∈ closing :: before, t.kind ∈ kinds
  | recovered blocks before after => ∃ skipped, before = skipped ++ after ∧
      ∀ t ∈ skipped, ∀ kinds ∈ blocks, t.kind ∉ kinds

/-- The tokens left at the error after which tokens were skipped. -/
def stop? : Event → Option (List Token)
  | recovered _ before _ => some before
  | _ => none

end Event

/-- The state of reading: the tokens left, what ends the open blocks, the innermost first, the tokens
left at each error, and what was noted. -/
structure Cursor where
  left : List Token
  blocks : List (List Kind)
  stops : List (List Token)
  log : List Event

namespace Cursor

def start (ts : List Token) : Cursor := ⟨ts, [], [], []⟩

/-- What ends the open blocks. -/
def awaited (c : Cursor) : List Kind :=
  c.blocks.flatten

def advance (c : Cursor) : Cursor :=
  { c with left := c.left.tail }

def openBlock (closing : List Kind) (c : Cursor) : Cursor :=
  { c with blocks := closing :: c.blocks }

def closeBlock (c : Cursor) : Cursor :=
  { c with blocks := c.blocks.tail }

def note (e : Event) (c : Cursor) : Cursor :=
  { c with log := c.log ++ [e] }

def report (c : Cursor) : Cursor :=
  { c with stops := c.stops ++ [c.left] }

/-- Skips tokens after an error. -/
def skip (c : Cursor) : Cursor :=
  let after := (recover c.awaited c.left).1
  { c with left := after }.note (.recovered c.blocks c.left after)

end Cursor

/-- Work on the state, which is given up when its budget is used up. -/
abbrev Work := StateT Cursor Option

namespace Work

variable {α β : Type}

/-- Reads at the cursor. -/
def read (reader : (ts : List Token) → Reading α ts) : Work (Option α) := fun c =>
  match reader c.left with
  | .done v rest _ => some (some v, { c with left := rest })
  | .stuck rest _ => some (none, { c with left := rest })

/-- Reports where there is no value, and goes on at a token where reading can. -/
def settle : Option α → Work Unit
  | some _ => pure ()
  | none => modify fun c => c.report.skip

section Rounds

variable (rounds : Work (List Statement))

/-- Reads the statements of a block that is open while they are read. -/
def statements (closing : List Kind) : Work (List Statement) := do
  let before := (← get).blocks
  modify (Cursor.openBlock closing)
  let ss ← rounds
  modify Cursor.closeBlock
  modify fun c => c.note (.closed closing before c.blocks c.left)
  return ss

/-- Reads the body of a statement. It may be empty only if errors were met in it. -/
def block (closing : List Kind) : Work (Option (List Statement)) := do
  let before := (← get).stops.length
  let ss ← statements rounds closing
  return if ss.isEmpty && (← get).stops.length == before then none else some ss

/-- Reads a statement. -/
def statement : Work (Option Statement) := do
  match (← get).left with
  | ⟨.name, name, _⟩ :: _ =>
    modify Cursor.advance
    read (readAssignment name)
  | ⟨.returnKw, _, _⟩ :: _ =>
    modify Cursor.advance
    read readResult
  | ⟨.ifKw, _, _⟩ :: _ =>
    modify Cursor.advance
    let some condition ← read readTest | return none
    let some body ← block rounds [.elseKw, .endIf] | return none
    match (← get).left with
    | ⟨.elseKw, _, _⟩ :: _ =>
      modify Cursor.advance
      let some other ← block rounds [.endIf] | return none
      let some _ ← read (expect .endIf) | return none
      return some (.choice condition body other)
    | _ =>
      let some _ ← read (expect .endIf) | return none
      return some (.branch condition body)
  | ⟨.forKw, _, _⟩ :: _ =>
    modify Cursor.advance
    let some (counter, source) ← read readEach | return none
    let some body ← block rounds [.endFor] | return none
    let some _ ← read (expect .endFor) | return none
    return some (.each counter source body)
  | ⟨.repeatKw, _, _⟩ :: _ =>
    modify Cursor.advance
    let some body ← block rounds [.untilKw] | return none
    let some _ ← read (expect .untilKw) | return none
    let some condition ← read readCondition | return none
    return some (.repetition body condition)
  | ⟨.procedureKw, _, _⟩ :: _ =>
    modify Cursor.advance
    let some (name, parameters) ← read readSignature | return none
    let some body ← block rounds [.endProc] | return none
    let some _ ← read (expect .endProc) | return none
    return some (.procedure name parameters body)
  | _ => return none

end Rounds

/-- Reads statements, one a round, up to a token that an open block waits for. The rounds that are
left of the budget may be used by the statement and after it. -/
def rounds : Nat → Work (List Statement)
  | 0 => fun _ => none
  | budget + 1 => do
    let c ← get
    match c.left with
    | [] => return []
    | t :: _ =>
      if t.kind ∈ c.awaited then return []
      else
        let s? ← statement (rounds budget)
        settle s?
        modify fun c' => c'.note (.round c.left c'.left)
        return s?.toList ++ (← rounds budget)

/-- Reads a whole text. Where it holds no statement and no error, its end is the error. -/
def program (budget : Nat) : Work (List Statement) := do
  let ss ← statements (rounds budget) []
  if ss.isEmpty && (← get).stops.isEmpty then modify Cursor.report
  return ss

/-! ### What work gives -/

/-- Work that is started at `c` comes to an end. It gives `v`, leaves the tokens `rest` and the open
blocks as they were, and meets errors at `stops`. What it notes is sound, and it skips tokens after
each of these errors and nowhere else. -/
def Gives (w : Work α) (c : Cursor) (v : α) (stops : List (List Token)) (rest : List Token) :
    Prop :=
  ∃ log, w c = some (v, ⟨rest, c.blocks, c.stops ++ stops, c.log ++ log⟩) ∧
    (∀ e ∈ log, e.Sound) ∧ log.filterMap Event.stop? = stops

section Gives

variable {c : Cursor} {v : α} {v' : β} {stops stops' : List (List Token)}
  {rest rest' : List Token}

theorem Gives.pure (v : α) (c : Cursor) : Gives (Pure.pure v) c v [] c.left :=
  ⟨[], by rw [List.append_nil, List.append_nil]; rfl, List.forall_mem_nil _, rfl⟩

theorem Gives.get {next : Cursor → Work β} (h : Gives (next c) c v' stops rest) :
    Gives (MonadState.get >>= next) c v' stops rest :=
  h

/-- Work that is done one after the other. The second is started where the first left the cursor,
with the same blocks open. -/
theorem Gives.bind {w : Work α} (h : Gives w c v stops rest) {next : α → Work β}
    (hnext : ∀ c', c'.left = rest → c'.blocks = c.blocks → Gives (next v) c' v' stops' rest') :
    Gives (w >>= next) c v' (stops ++ stops') rest' := by
  obtain ⟨log, hw, hsound, hstops⟩ := h
  obtain ⟨log', hw', hsound', hstops'⟩ := hnext ⟨rest, c.blocks, c.stops ++ stops, c.log ++ log⟩
    rfl rfl
  refine ⟨log ++ log', ?_, List.forall_mem_append.mpr ⟨hsound, hsound'⟩, ?_⟩
  · change (w c).bind (fun p => next p.1 p.2) = _
    rw [hw]
    change next v _ = _
    rw [hw', List.append_assoc, List.append_assoc]
  · rw [List.filterMap_append, hstops, hstops']

theorem Gives.change {f : Cursor → Cursor} (log : List Event)
    (hf : f c = ⟨rest, c.blocks, c.stops ++ stops, c.log ++ log⟩)
    (hsound : ∀ e ∈ log, e.Sound) (hstops : log.filterMap Event.stop? = stops) :
    Gives (modify f) c () stops rest :=
  ⟨log, congrArg (fun c => some ((), c)) hf, hsound, hstops⟩

theorem Gives.advance {t : Token} (h : c.left = t :: rest) :
    Gives (modify Cursor.advance) c () [] rest := by
  refine .change [] ?_ (List.forall_mem_nil _) rfl
  simp [Cursor.advance, h]

end Gives

end Work

/-! ### What reading gives -/

/-- The value that reading gives, if any, and the tokens left. -/
def Reading.outcome {α : Type} {ts : List Token} : Reading α ts → Option α × List Token
  | done value rest _ => (some value, rest)
  | stuck rest _ => (none, rest)

@[simp] theorem Reading.outcome_widen {α : Type} {ts rest : List Token} (h : rest <:+ ts)
    (r : Reading α rest) : (r.widen h).outcome = r.outcome := by
  cases r <;> rfl

theorem Attempt.ofReading_bind {α β : Type} {ts : List Token} (r : Reading α ts)
    (next : α → (rest : List Token) → rest <:+ ts → Reading β rest) :
    ofReading (r.bind next) = (ofReading r).bind fun v rest h => ofReading (next v rest h) := by
  cases r <;> rfl

theorem Block.body_stops {ts : List Token} (b : Block ts) : b.body.stops = b.stops := by
  unfold Block.body
  split
  · rename_i hempty
    exact (List.isEmpty_iff.mp (Bool.and_eq_true_iff.mp hempty).2).symm
  · rfl

theorem Block.body_outcome {ts : List Token} (b : Block ts) : b.body.reading.outcome =
    (if b.statements.isEmpty && b.stops.isEmpty then none else some b.statements, b.rest) := by
  unfold Block.body
  split <;> rfl

namespace Work

variable {α β : Type}

/-- Work gives what reading gives. -/
def Follows (w : Work (Option α)) (c : Cursor) {ts : List Token} (a : Attempt α ts) : Prop :=
  Gives w c a.reading.outcome.1 a.stops a.reading.outcome.2

section Follows

variable {c : Cursor} {ts : List Token}

theorem read_follows (reader : (ts : List Token) → Reading α ts) (h : c.left = ts) :
    Follows (read reader) c (.ofReading (reader ts)) := by
  subst h
  refine ⟨[], ?_, List.forall_mem_nil _, rfl⟩
  unfold read Attempt.ofReading
  cases reader c.left <;> simp [Reading.outcome]

theorem Follows.get {next : Cursor → Work (Option α)} {a : Attempt α ts}
    (h : Follows (next c) c a) : Follows (MonadState.get >>= next) c a :=
  h

theorem Follows.advanced {t : Token} (h : c.left = t :: ts) {w : Work (Option α)}
    {a : Attempt α ts} (hw : ∀ c', c'.left = ts → c'.blocks = c.blocks → Follows w c' a) :
    Follows (modify Cursor.advance >>= fun _ => w) c a :=
  (Gives.advance h).bind hw

theorem Follows.past {w : Work (Option α)} {a : Attempt α ts} (h : Follows w c a) (t : Token) :
    Follows w c (a.past t) := by
  unfold Follows Attempt.past Reading.past
  rwa [Reading.outcome_widen]

/-- After an error the work is over, and so is reading. -/
theorem Follows.bind {w : Work (Option α)} {a : Attempt α ts} (h : Follows w c a)
    {f : Option α → Work (Option β)}
    {next : α → (rest : List Token) → rest <:+ ts → Attempt β rest}
    (hnext : ∀ v rest hs c', c'.left = rest → c'.blocks = c.blocks →
      Follows (f (some v)) c' (next v rest hs)) (hnone : f none = pure none) :
    Follows (w >>= f) c (a.bind next) := by
  obtain ⟨stops, reading⟩ := a
  cases reading with
  | done v rest hs =>
    unfold Attempt.bind Follows
    dsimp only
    rw [Reading.outcome_widen]
    exact Gives.bind h fun c' hleft hblocks => hnext v rest hs c' hleft hblocks
  | stuck rest hs =>
    have hstop := Gives.bind h fun c' hleft _ => hleft ▸ hnone ▸ Gives.pure none c'
    rwa [List.append_nil] at hstop

theorem Follows.map {w : Work (Option α)} {a : Attempt α ts} (h : Follows w c a)
    {f : Option α → Work (Option β)} {g : α → β} (hsome : ∀ v, f (some v) = pure (some (g v)))
    (hnone : f none = pure none) : Follows (w >>= f) c (a.map g) := by
  obtain ⟨stops, reading⟩ := a
  cases reading with
  | done v rest hs =>
    have hvalue := Gives.bind h fun c' hleft _ => hleft ▸ hsome v ▸ Gives.pure (some (g v)) c'
    rwa [List.append_nil] at hvalue
  | stuck rest hs =>
    have hstop := Gives.bind h fun c' hleft _ => hleft ▸ hnone ▸ Gives.pure none c'
    rwa [List.append_nil] at hstop

end Follows

/-! ### Skipping tokens -/

/-- All that blocks wait for ends a block. -/
def Proper (blocks : List (List Kind)) : Prop :=
  ∀ k ∈ blocks.flatten, k.endsBlock = true

theorem exists_skipped_resume (ts : List Token) : ∃ skipped, ts = skipped ++ (resume ts).1 ∧
    ∀ t ∈ skipped, t.kind.endsBlock = false := by
  induction ts with
  | nil => exact ⟨[], rfl, List.forall_mem_nil _⟩
  | cons t rest ih =>
    rw [resume]
    split
    · exact ⟨[], rfl, List.forall_mem_nil _⟩
    · rename_i hstops
      simp only [Bool.or_eq_true, not_or, Bool.not_eq_true] at hstops
      obtain ⟨skipped, hrest, hskipped⟩ := ih
      exact ⟨t :: skipped, congrArg (t :: ·) hrest,
        List.forall_mem_cons.mpr ⟨hstops.1, hskipped⟩⟩

/-- No token that is waited for is skipped after an error. -/
theorem exists_skipped_recover {awaited : List Kind} (h : ∀ k ∈ awaited, k.endsBlock = true)
    (ts : List Token) : ∃ skipped, ts = skipped ++ (recover awaited ts).1 ∧
      ∀ t ∈ skipped, t.kind ∉ awaited := by
  have hresume (ts : List Token) : ∃ skipped, ts = skipped ++ (resume ts).1 ∧
      ∀ t ∈ skipped, t.kind ∉ awaited := by
    obtain ⟨skipped, hts, hskipped⟩ := exists_skipped_resume ts
    exact ⟨skipped, hts, fun t ht hk => absurd (h _ hk) (Bool.eq_false_iff.mp (hskipped t ht))⟩
  cases ts with
  | nil => exact ⟨[], rfl, List.forall_mem_nil _⟩
  | cons t rest =>
    rw [recover]
    split
    · exact hresume (t :: rest)
    · rename_i hk
      obtain ⟨skipped, hrest, hskipped⟩ := hresume rest
      exact ⟨t :: skipped, congrArg (t :: ·) hrest, List.forall_mem_cons.mpr ⟨hk, hskipped⟩⟩

/-! ### Errors -/

section Errors

variable {c : Cursor} {blocks : List (List Kind)} {ts : List Token}

theorem settle_gives (hblocks : c.blocks = blocks) (h : c.left = ts) (hproper : Proper blocks) :
    Gives (settle (none : Option α)) c () [ts] (recover blocks.flatten ts).1 := by
  subst hblocks h
  refine .change [.recovered c.blocks c.left (recover c.awaited c.left).1] rfl ?_ rfl
  obtain ⟨skipped, hleft, hskipped⟩ := exists_skipped_recover hproper c.left
  refine List.forall_mem_singleton.mpr ⟨skipped, hleft, fun t ht kinds hkinds hk => ?_⟩
  exact hskipped t ht (List.mem_flatten.mpr ⟨kinds, hkinds, hk⟩)

end Errors

/-! ### Blocks -/

/-- Work gives a block of statements as it is read. -/
def GivesBlock (w : Work (List Statement)) (c : Cursor) {ts : List Token} (b : Block ts) : Prop :=
  Gives w c b.statements b.stops b.rest

/-- Rounds give what reading statements gives, of fewer than `n` tokens. -/
def Reads (rounds : Work (List Statement)) (n : Nat) : Prop :=
  ∀ {blocks : List (List Kind)} {ts : List Token} (c : Cursor), c.blocks = blocks → c.left = ts →
    Proper blocks → ts.length < n → GivesBlock rounds c (readStatements blocks.flatten ts)

section Blocks

variable {rounds : Work (List Statement)} {n : Nat} {c : Cursor} {closing : List Kind}
  {blocks : List (List Kind)} {ts : List Token}

theorem statements_gives (hrounds : Reads rounds n) (hblocks : c.blocks = blocks)
    (h : c.left = ts) (hproper : Proper (closing :: blocks)) (hn : ts.length < n) :
    GivesBlock (statements rounds closing) c (readStatements (closing ++ blocks.flatten) ts) := by
  subst hblocks
  -- The rounds leave the blocks as they were with the new one open, so this is no `Gives.bind`.
  have hopened : GivesBlock rounds (c.openBlock closing)
      (readStatements (closing :: c.blocks).flatten ts) := hrounds _ rfl h hproper hn
  rw [List.flatten_cons] at hopened
  obtain ⟨log, hw, hsound, hstops⟩ := hopened
  have hmade := readStatements_made (closing ++ c.blocks.flatten) ts
  unfold GivesBlock
  generalize readStatements (closing ++ c.blocks.flatten) ts = b at hw hstops hmade ⊢
  refine ⟨log ++ [.closed closing c.blocks c.blocks b.rest], ?_, ?_, ?_⟩
  · unfold statements
    change (rounds (c.openBlock closing)).bind _ = _
    rw [hw, ← List.append_assoc]
    rfl
  · refine List.forall_mem_append.mpr ⟨hsound, List.forall_mem_singleton.mpr ⟨rfl, fun t ht => ?_⟩⟩
    exact List.mem_flatten.mp (hmade.stopped t ht)
  · rw [List.filterMap_append, hstops]
    exact List.append_nil _

/-- Whether errors were met in a block is seen by how many there were before it. -/
theorem block_gives {b : Block ts} (hstatements : GivesBlock (statements rounds closing) c b) :
    Follows (block rounds closing) c b.body := by
  unfold Follows
  rw [b.body_stops, b.body_outcome]
  obtain ⟨log, hw, hsound, hstops⟩ := hstatements
  refine ⟨log, ?_, hsound, hstops⟩
  have hnew : ((c.stops ++ b.stops).length == c.stops.length) = b.stops.isEmpty := by
    rw [List.length_append, Bool.eq_iff_iff, beq_iff_eq, Nat.add_eq_left, List.length_eq_zero_iff,
      List.isEmpty_iff]
  unfold block
  rw [← hnew]
  change (statements rounds closing c).bind _ = _
  rw [hw]
  rfl

/-- A body gives what reading it gives. -/
theorem block_follows (hrounds : Reads rounds n) (hblocks : c.blocks = blocks) (h : c.left = ts)
    (hproper : Proper blocks) (hclosing : ∀ k ∈ closing, k.endsBlock = true)
    (hn : ts.length < n) :
    Follows (block rounds closing) c (readBody blocks.flatten closing ts) := by
  rw [readBody]
  exact block_gives
    (statements_gives hrounds hblocks h (List.forall_mem_append.mpr ⟨hclosing, hproper⟩) hn)

/-- A body that a token of one kind must follow. -/
theorem Follows.closed {a : Attempt (List Statement) ts} (h : Follows (block rounds closing) c a)
    (kind : Kind) (g : List Statement → Statement) :
    Follows (do
        let some body ← block rounds closing | return none
        let some _ ← read (expect kind) | return none
        return some (g body))
      c (a.bind fun body rest _ => .ofReading ((expect kind rest).map fun _ => g body)) :=
  h.bind (fun _ _ _ _ hleft _ => (read_follows (expect kind) hleft).map (fun _ => rfl) rfl) rfl

end Blocks

/-! ### Statements -/

/-- A statement gives what reading it gives, and an error where none can begin. -/
theorem statement_gives {rounds : Work (List Statement)} {n : Nat} (hrounds : Reads rounds n)
    {c : Cursor} {blocks : List (List Kind)} {t : Token} {ts : List Token}
    (hblocks : c.blocks = blocks) (h : c.left = t :: ts) (hproper : Proper blocks)
    (hn : ts.length < n) :
    match readStatement blocks.flatten t ts with
    | none => Gives (statement rounds) c none [] (t :: ts)
    | some a => Follows (statement rounds) c a := by
  have hbody {closing : List Kind} (hclosing : ∀ k ∈ closing, k.endsBlock = true)
      {rest : List Token} (hs : rest <:+ ts) {c' : Cursor} (hleft : c'.left = rest)
      (hblocks' : c'.blocks = c.blocks) :
      Follows (block rounds closing) c' (readBody blocks.flatten closing rest) :=
    block_follows hrounds (hblocks'.trans hblocks) hleft hproper hclosing
      (Nat.lt_of_le_of_lt hs.length_le hn)
  obtain ⟨kind, lexeme, position⟩ := t
  rw [readStatement.eq_def]
  unfold statement
  cases kind with
  | name =>
    refine Follows.get ?_
    simp only [h]
    exact Follows.advanced h fun c' hleft _ => read_follows _ hleft
  | returnKw =>
    refine Follows.get ?_
    simp only [h]
    exact Follows.advanced h fun c' hleft _ => read_follows _ hleft
  | ifKw =>
    refine Follows.get ?_
    simp only [h]
    refine Follows.advanced h fun c₁ hleft₁ hblocks₁ => ?_
    refine (read_follows readTest hleft₁).bind
      (fun condition rest₁ hs₁ c₂ hleft₂ hblocks₂ => ?_) rfl
    refine (hbody (by decide) hs₁ hleft₂ (hblocks₂.trans hblocks₁)).bind
      (fun body rest₂ hs₂ c₃ hleft₃ hblocks₃ => ?_) rfl
    refine Follows.get ?_
    rw [hleft₃]
    split
    · refine (Follows.advanced hleft₃ fun c₄ hleft₄ hblocks₄ => ?_).past _
      have hs₃ := (List.suffix_cons _ _).trans (hs₂.trans hs₁)
      have hblocks₀ := hblocks₄.trans (hblocks₃.trans (hblocks₂.trans hblocks₁))
      exact (hbody (by decide) hs₃ hleft₄ hblocks₀).closed .endIf (.choice condition body)
    · rename_i helse
      split
      · exact (helse _ _ _ rfl).elim
      · exact (read_follows (expect .endIf) hleft₃).map (fun _ => rfl) rfl
  | forKw =>
    refine Follows.get ?_
    simp only [h]
    refine Follows.advanced h fun c₁ hleft₁ hblocks₁ => ?_
    refine (read_follows readEach hleft₁).bind (fun each rest hs c₂ hleft₂ hblocks₂ => ?_) rfl
    exact (hbody (by decide) hs hleft₂ (hblocks₂.trans hblocks₁)).closed .endFor
      (.each each.1 each.2)
  | repeatKw =>
    refine Follows.get ?_
    simp only [h]
    refine Follows.advanced h fun c₁ hleft₁ hblocks₁ => ?_
    refine (hbody (by decide) (List.suffix_refl ts) hleft₁ hblocks₁).bind
      (fun body rest₁ hs₁ c₂ hleft₂ hblocks₂ => ?_) rfl
    rw [Attempt.ofReading_bind]
    refine (read_follows (expect .untilKw) hleft₂).bind
      (fun _ rest₂ hs₂ c₃ hleft₃ hblocks₃ => ?_) rfl
    exact (read_follows readCondition hleft₃).map (fun _ => rfl) rfl
  | procedureKw =>
    refine Follows.get ?_
    simp only [h]
    refine Follows.advanced h fun c₁ hleft₁ hblocks₁ => ?_
    refine (read_follows readSignature hleft₁).bind
      (fun signature rest hs c₂ hleft₂ hblocks₂ => ?_) rfl
    exact (hbody (by decide) hs hleft₂ (hblocks₂.trans hblocks₁)).closed .endProc
      (.procedure signature.1 signature.2)
  | _ =>
    refine Gives.get ?_
    simp only [h]
    exact h ▸ Gives.pure none c

/-! ### Rounds -/

theorem note_round_gives {c : Cursor} {before after : List Token} (h : c.left = after)
    (hsuffix : after <:+ before) (hlength : after.length < before.length) :
    Gives (modify fun c => c.note (.round before c.left)) c () [] after := by
  subst h
  refine .change [.round before c.left] ?_ ?_ rfl
  · simp [Cursor.note]
  · exact List.forall_mem_singleton.mpr ⟨hsuffix, hlength⟩

/-- A round in which a statement was read or met an error, and those after it. -/
theorem round_gives {budget : Nat} {c : Cursor} {t : Token} {rest mid after : List Token}
    {s? : Option Statement} {stops stops' : List (List Token)} {b : Block after}
    (hstatement : Gives (statement (rounds budget)) c s? stops mid)
    (hsettle : ∀ c', c'.left = mid → c'.blocks = c.blocks → Gives (settle s?) c' () stops' after)
    (hsuffix : after <:+ rest)
    (hmore : ∀ c', c'.left = after → c'.blocks = c.blocks → GivesBlock (rounds budget) c' b) :
    Gives (do
        let s? ← statement (rounds budget)
        settle s?
        modify fun c' => c'.note (.round (t :: rest) c'.left)
        return s?.toList ++ (← rounds budget))
      c (s?.toList ++ b.statements) (stops ++ (stops' ++ b.stops)) b.rest := by
  have htaken := hsuffix.trans (List.suffix_cons t rest)
  have hlength : after.length < (t :: rest).length := Nat.lt_succ_of_le hsuffix.length_le
  refine hstatement.bind fun c₁ hleft₁ hblocks₁ => ?_
  refine (hsettle c₁ hleft₁ hblocks₁).bind fun c₂ hleft₂ hblocks₂ => ?_
  rw [← List.nil_append b.stops]
  refine (note_round_gives hleft₂ htaken hlength).bind fun c₃ hleft₃ hblocks₃ => ?_
  rw [← List.append_nil b.stops]
  refine (hmore c₃ hleft₃ (hblocks₃.trans (hblocks₂.trans hblocks₁))).bind fun c₄ hleft₄ _ => ?_
  exact hleft₄ ▸ Gives.pure _ c₄

/-- A budget of rounds is enough for fewer tokens. -/
theorem rounds_reads (budget : Nat) : Reads (rounds budget) budget := by
  induction budget with
  | zero => exact fun _ _ _ _ hn => absurd hn (Nat.not_lt_zero _)
  | succ budget ih =>
    intro blocks ts c hblocks h hproper hn
    rw [rounds, readStatements.eq_def]
    refine Gives.get ?_
    have hawaited : c.awaited = blocks.flatten := congrArg List.flatten hblocks
    cases ts with
    | nil =>
      simp only [h]
      exact h ▸ Gives.pure [] c
    | cons t rest =>
      simp only [h, hawaited]
      by_cases ht : t.kind ∈ blocks.flatten
      · simp only [ht, if_true]
        exact h ▸ Gives.pure [] c
      simp only [ht, if_false]
      have hrest : rest.length < budget := Nat.lt_of_succ_lt_succ hn
      have hstatement := statement_gives ih hblocks h hproper hrest
      have hmore (after : List Token) (hs : after <:+ rest) (c' : Cursor) (hleft : c'.left = after)
          (hblocks' : c'.blocks = c.blocks) :
          GivesBlock (rounds budget) c' (readStatements blocks.flatten after) :=
        ih c' (hblocks'.trans hblocks) hleft hproper (Nat.lt_of_le_of_lt hs.length_le hrest)
      have hrecover (after : List Token) (c' : Cursor) (hleft : c'.left = after)
          (hblocks' : c'.blocks = c.blocks) :
          Gives (settle (none : Option Statement)) c' () [after]
            (recover blocks.flatten after).1 :=
        settle_gives (hblocks'.trans hblocks) hleft hproper
      cases hread : readStatement blocks.flatten t rest with
      | none =>
        rw [hread] at hstatement
        -- Nothing waits for this token, so that it is skipped although no statement took it.
        have hskip : (recover blocks.flatten (t :: rest)).1 = (resume rest).1 := by
          rw [recover, if_neg ht]
        exact round_gives hstatement (hskip ▸ hrecover (t :: rest)) (resume rest).2
          (hmore (resume rest).1 (resume rest).2)
      | some a =>
        rw [hread] at hstatement
        obtain ⟨stops, reading⟩ := a
        cases reading with
        | done s after hs =>
          exact round_gives hstatement (fun c' hleft _ => hleft ▸ Gives.pure () c') hs
            (hmore after hs)
        | stuck after hs =>
          have hs' := (recover blocks.flatten after).2.trans hs
          exact round_gives hstatement (hrecover after) hs' (hmore _ hs')

/-! ### Programs -/

/-- With a budget of more rounds than there are tokens, work on a text comes to an end, at the end of
its tokens and with no block open. It gives the statements that are read and meets the errors that
are reported. Every round took a token, no block changed those around it, and nothing that was waited
for was skipped. Tokens were skipped after the errors between and inside statements and nowhere else,
and for each of these there is a diagnostic. -/
theorem program_halts (ts : List Token) (spare : Nat) : ∃ c,
    program (ts.length + 1 + spare) (.start ts) = some ((readProgram ts).1, c) ∧
    c.stops = (readProgram ts).2 ∧ c.left = [] ∧ c.blocks = [] ∧ (∀ e ∈ c.log, e.Sound) ∧
    c.log.filterMap Event.stop? = (readStatements [] ts).stops ∧
    ∀ blocks before after, .recovered blocks before after ∈ c.log →
      ∃ d ∈ (Rendition.ofTokens ts).diagnostics,
        d = Rendition.stopped ts before ∧ d.problem.isLexical = false := by
  have hn : ts.length < ts.length + 1 + spare := by omega
  have hproper : Proper [[]] := List.forall_mem_nil _
  have hstatements : GivesBlock (statements (rounds (ts.length + 1 + spare)) []) (.start ts)
      (readStatements [] ts) := statements_gives (rounds_reads _) rfl rfl hproper hn
  obtain ⟨log, hw, hsound, hstops⟩ := hstatements
  rw [readStatements_rest] at hw
  have hprogram : program (ts.length + 1 + spare) (.start ts) =
      some ((readProgram ts).1, ⟨[], [], (readProgram ts).2, log⟩) := by
    unfold program readProgram
    dsimp only
    rw [readStatements_rest]
    change (statements _ [] (.start ts)).bind _ = _
    rw [hw]
    change (if ((readStatements [] ts).statements.isEmpty && (readStatements [] ts).stops.isEmpty)
      then _ else _ : Work _) _ = _
    split
    · rename_i hempty
      simp only [Bool.and_eq_true, List.isEmpty_iff] at hempty
      rw [hempty.1, hempty.2]
      rfl
    · rfl
  refine ⟨_, hprogram, rfl, rfl, rfl, hsound, hstops, fun blocks before after he => ?_⟩
  have hmem : before ∈ (readStatements [] ts).stops :=
    hstops ▸ List.mem_filterMap.mpr ⟨_, he, rfl⟩
  have hstop : before ∈ (readProgram ts).2 := by
    unfold readProgram
    dsimp only
    rwa [if_neg]
    simp [List.ne_nil_of_mem hmem]
  exact ⟨_, List.mem_map_of_mem hstop, rfl, Rendition.isLexical_stopped ts before⟩

example :
    let ts : List Token := [⟨.endIf, "endif", ⟨1, 1⟩⟩, ⟨.returnKw, "return", ⟨1, 7⟩⟩]
    (program 3 (.start ts)).map Prod.fst = some [.result none] ∧
      (program 2 (.start ts)).isNone = true :=
  ⟨rfl, rfl⟩

end Work

end Growth.Pseudo
