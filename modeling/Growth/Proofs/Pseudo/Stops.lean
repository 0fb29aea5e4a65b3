import Growth.Proofs.Pseudo.Cursor

/-! The errors met in reading, in the order in which they are met. Reading never goes back behind an
error: what is left at one is a suffix of what was left at the one before it, also across the ends of
bodies that were not finished and of statements that failed after them. -/

namespace Growth.Pseudo

/-- On the way from `ts` to `rest`, errors are met with the tokens of `stops` left at them, none of
them before another that was met earlier. -/
inductive Descends : List Token → List (List Token) → List Token → Prop
  | calm {ts rest : List Token} (h : rest <:+ ts) : Descends ts [] rest
  | stop {ts stop rest : List Token} {stops : List (List Token)} (h : stop <:+ ts)
      (hmore : Descends stop stops rest) : Descends ts (stop :: stops) rest

namespace Descends

variable {ts ts' mid rest : List Token} {stops stops' : List (List Token)}

theorem widen (h : Descends ts stops rest) (hts : ts <:+ ts') : Descends ts' stops rest := by
  cases h with
  | calm h => exact .calm (h.trans hts)
  | stop h hmore => exact .stop (h.trans hts) hmore

theorem append (h : Descends ts stops mid) (h' : Descends mid stops' rest) :
    Descends ts (stops ++ stops') rest := by
  induction h with
  | calm hmid => exact h'.widen hmid
  | stop hstop _ ih => exact .stop hstop (ih h')

theorem suffix_of_mem (h : Descends ts stops rest) {stop : List Token} (hmem : stop ∈ stops) :
    stop <:+ ts := by
  induction h with
  | calm _ => cases hmem
  | stop hstop _ ih =>
    rcases List.mem_cons.mp hmem with rfl | hmem
    · exact hstop
    · exact (ih hmem).trans hstop

/-- No error is met before one that was met earlier. -/
theorem pairwise (h : Descends ts stops rest) : stops.Pairwise fun a b => b <:+ a := by
  induction h with
  | calm _ => exact .nil
  | stop _ hmore ih => exact .cons (fun _ hmem => hmore.suffix_of_mem hmem) ih

end Descends

/-! ### Attempts and blocks -/

/-- The errors of an attempt are met one behind the other. -/
def Attempt.InOrder {α : Type} {ts : List Token} (a : Attempt α ts) : Prop :=
  Descends ts a.stops a.reading.outcome.2

namespace Attempt

variable {α β : Type} {ts : List Token}

theorem inOrder_ofReading (r : Reading α ts) : (Attempt.ofReading r).InOrder := by
  cases r with
  | done v rest h => exact .calm h
  | stuck rest h => exact .calm h

theorem InOrder.past {a : Attempt α ts} (h : a.InOrder) (t : Token) : (a.past t).InOrder := by
  unfold Attempt.past Reading.past InOrder
  dsimp only
  rw [Reading.outcome_widen]
  exact h.widen (List.suffix_cons t ts)

theorem InOrder.bind {a : Attempt α ts} (h : a.InOrder)
    {next : α → (rest : List Token) → rest <:+ ts → Attempt β rest}
    (hnext : ∀ v rest hs, (next v rest hs).InOrder) : (a.bind next).InOrder := by
  obtain ⟨stops, reading⟩ := a
  cases reading with
  | done v rest hs =>
    unfold Attempt.bind InOrder
    dsimp only
    rw [Reading.outcome_widen]
    exact Descends.append h (hnext v rest hs)
  | stuck rest hs => exact h

end Attempt

/-- The errors of a block are met one behind the other, and before the end of the block. -/
def Block.InOrder {ts : List Token} (b : Block ts) : Prop :=
  Descends ts b.stops b.rest

theorem Block.InOrder.body {ts : List Token} {b : Block ts} (h : b.InOrder) : b.body.InOrder := by
  unfold Attempt.InOrder
  rw [b.body_stops, b.body_outcome]
  exact h

/-! ### Statements -/

mutual

/-- Between statements and inside them, errors are met one behind the other. -/
theorem readStatements_inOrder (awaited : List Kind) (ts : List Token) :
    (readStatements awaited ts).InOrder := by
  rw [readStatements.eq_def]
  split
  · exact .calm (List.suffix_refl [])
  · rename_i t rest
    split
    · exact .calm (List.suffix_refl (t :: rest))
    split
    · -- no statement begins with this token
      have hmore := readStatements_inOrder awaited (resume rest).1
      exact .stop (List.suffix_refl _)
        (hmore.widen ((resume rest).2.trans (List.suffix_cons t rest)))
    · rename_i stops s rest' h hread
      have hstatement : Descends rest stops rest' := readStatement_inOrder awaited t rest _ hread
      have hmore := readStatements_inOrder awaited rest'
      exact (hstatement.append hmore).widen (List.suffix_cons t rest)
    · -- the statement fails behind the errors that were met inside it
      rename_i stops rest' h hread
      have hstatement : Descends rest stops rest' := readStatement_inOrder awaited t rest _ hread
      have hmore := readStatements_inOrder awaited (recover awaited rest').1
      have hstop : Descends rest' (rest' :: _) _ :=
        .stop (List.suffix_refl rest') (hmore.widen (recover awaited rest').2)
      exact (hstatement.append hstop).widen (List.suffix_cons t rest)
termination_by 3 * ts.length
decreasing_by all_goals grind [→ List.IsSuffix.length_le]

theorem readStatement_inOrder (awaited : List Kind) (t : Token) (ts : List Token)
    (a : Attempt Statement ts) (h : readStatement awaited t ts = some a) : a.InOrder := by
  rw [readStatement] at h
  split at h
  · cases h
    exact Attempt.inOrder_ofReading _
  · cases h
    exact Attempt.inOrder_ofReading _
  · cases h
    refine (Attempt.inOrder_ofReading _).bind fun condition rest _ => ?_
    refine (readBody_inOrder awaited [.elseKw, .endIf] rest).bind fun body rest1 _ => ?_
    split
    · rename_i rest2 _
      refine Attempt.InOrder.past ?_ _
      exact (readBody_inOrder awaited [.endIf] rest2).bind fun _ _ _ =>
        Attempt.inOrder_ofReading _
    · exact Attempt.inOrder_ofReading _
  · cases h
    refine (Attempt.inOrder_ofReading _).bind fun each rest _ => ?_
    exact (readBody_inOrder awaited [.endFor] rest).bind fun _ _ _ => Attempt.inOrder_ofReading _
  · cases h
    exact (readBody_inOrder awaited [.untilKw] ts).bind fun _ _ _ => Attempt.inOrder_ofReading _
  · cases h
    refine (Attempt.inOrder_ofReading _).bind fun signature rest _ => ?_
    exact (readBody_inOrder awaited [.endProc] rest).bind fun _ _ _ => Attempt.inOrder_ofReading _
  · cases h
termination_by 3 * ts.length + 2
decreasing_by all_goals grind [→ List.IsSuffix.length_le]

theorem readBody_inOrder (awaited closing : List Kind) (ts : List Token) :
    (readBody awaited closing ts).InOrder := by
  rw [readBody]
  exact (readStatements_inOrder (closing ++ awaited) ts).body
termination_by 3 * ts.length + 1
decreasing_by all_goals grind [→ List.IsSuffix.length_le]

end

/-- The errors of a whole text are met one behind the other. -/
theorem readProgram_descends (ts : List Token) : Descends ts (readProgram ts).2 [] := by
  have hread : Descends ts (readStatements [] ts).stops (readStatements [] ts).rest :=
    readStatements_inOrder [] ts
  rw [readStatements_rest] at hread
  unfold readProgram
  dsimp only
  split
  · rw [readStatements_rest]
    exact .stop List.nil_suffix (.calm (List.suffix_refl []))
  · exact hread

end Growth.Pseudo
