import Growth.Code.Recording

/-! Programs that record already. A block needs nothing more when it has a call of the routine, or when
no plain assignment stands in it. Recording leaves every block of a program like this, and it changes
nothing exactly where every block is like this before. -/

namespace Growth.Code.Recording

/-! ### Blocks that need no calls -/

/-- The block has a call of the routine, or no plain assignment stands in it. -/
def Complete (ss : List Statement) : Prop :=
  ss.any isCall = true ∨ ∀ s ∈ ss, s.assigned? = none

mutual

/-- Every block inside the statement is complete. -/
def CompleteWithin : Statement → Prop
  | .function _ _ body => Complete body ∧ AllCompleteWithin body
  | .whileLoop _ body => Complete body ∧ AllCompleteWithin body
  | .forLoop _ _ body => Complete body ∧ AllCompleteWithin body
  | .branch _ body other =>
    (Complete body ∧ AllCompleteWithin body) ∧ Complete other ∧ AllCompleteWithin other
  | _ => True

/-- Every block inside one of the statements is complete. -/
def AllCompleteWithin : List Statement → Prop
  | [] => True
  | s :: ss => CompleteWithin s ∧ AllCompleteWithin ss

end

theorem allCompleteWithin_iff {ss : List Statement} :
    AllCompleteWithin ss ↔ ∀ s ∈ ss, CompleteWithin s := by
  induction ss with
  | nil => simp [AllCompleteWithin]
  | cons s ss ih => rw [AllCompleteWithin, ih, List.forall_mem_cons]

/-! ### What recording does to a statement and to a block -/

theorem isCall_call (n : String) : isCall (call n) = true := by
  simp [isCall, call, Expression.callee?, Expression.name?]

theorem isCall_statement (s : Statement) : isCall (statement s) = isCall s := by
  cases s <;> rfl

theorem assigned?_statement (s : Statement) : (statement s).assigned? = s.assigned? := by
  cases s <;> rfl

/-- The calls that recording puts after a statement. -/
def callsAfter (has : Bool) (s : Statement) : List Statement :=
  if has then [] else s.assigned?.toList.map call

theorem block_eq_flatMap (has : Bool) (ss : List Statement) :
    block has ss = ss.flatMap fun s => statement s :: callsAfter has s := by
  induction ss with
  | nil => rfl
  | cons s ss ih => rw [block, ih, List.flatMap_cons, callsAfter, List.cons_append]

theorem mem_callsAfter {has : Bool} {s x : Statement} (h : x ∈ callsAfter has s) :
    ∃ n, s.assigned? = some n ∧ x = call n := by
  cases has with
  | true => exact nomatch h
  | false =>
    obtain ⟨n, hn, rfl⟩ := List.mem_map.mp h
    exact ⟨n, Option.mem_toList.mp hn, rfl⟩

/-! ### Recorded blocks are complete -/

theorem complete_block (ss : List Statement) : Complete (block (ss.any isCall) ss) := by
  rw [block_eq_flatMap]
  cases hcalls : ss.any isCall with
  | true =>
    obtain ⟨s, hs, hcall⟩ := List.any_eq_true.mp hcalls
    refine .inl (List.any_eq_true.mpr ⟨statement s, ?_, (isCall_statement s).trans hcall⟩)
    exact List.mem_flatMap.mpr ⟨s, hs, List.mem_cons_self ..⟩
  | false =>
    by_cases hnone : ∀ s ∈ ss, s.assigned? = none
    · right
      intro x hx
      obtain ⟨s, hs, hx⟩ := List.mem_flatMap.mp hx
      rcases List.mem_cons.mp hx with rfl | hx
      · rw [assigned?_statement, hnone s hs]
      · obtain ⟨n, hn, -⟩ := mem_callsAfter hx
        exact nomatch (hnone s hs).symm.trans hn
    · obtain ⟨s, hs, hne⟩ : ∃ s ∈ ss, s.assigned? ≠ none := by simpa using hnone
      obtain ⟨n, hn⟩ := Option.ne_none_iff_exists'.mp hne
      refine .inl (List.any_eq_true.mpr ⟨call n, ?_, isCall_call n⟩)
      exact List.mem_flatMap.mpr ⟨s, hs, by simp [callsAfter, hn]⟩

theorem completeWithin_of_mem_callsAfter {has : Bool} {s x : Statement}
    (h : x ∈ callsAfter has s) : CompleteWithin x := by
  obtain ⟨n, -, rfl⟩ := mem_callsAfter h
  simp [call, CompleteWithin]

mutual

/-- Recording completes every block inside a statement. -/
theorem completeWithin_statement : (s : Statement) → CompleteWithin (statement s)
  | .function _ _ body => ⟨complete_block body, allCompleteWithin_block _ body⟩
  | .whileLoop _ body => ⟨complete_block body, allCompleteWithin_block _ body⟩
  | .forLoop _ _ body => ⟨complete_block body, allCompleteWithin_block _ body⟩
  | .branch _ body other =>
    ⟨⟨complete_block body, allCompleteWithin_block _ body⟩,
      complete_block other, allCompleteWithin_block _ other⟩
  | .assign _ _ => trivial
  | .update _ _ _ => trivial
  | .result _ => trivial
  | .breakLoop => trivial
  | .continueLoop => trivial
  | .pass => trivial
  | .expression _ => trivial

theorem allCompleteWithin_block (has : Bool) :
    (ss : List Statement) → AllCompleteWithin (block has ss)
  | [] => trivial
  | s :: ss => by
    have hs := completeWithin_statement s
    have hss := allCompleteWithin_iff.mp (allCompleteWithin_block has ss)
    rw [block, ← callsAfter, allCompleteWithin_iff, List.forall_mem_cons, List.forall_mem_append]
    exact ⟨hs, fun x hx => completeWithin_of_mem_callsAfter hx, hss⟩

end

/-! ### Complete blocks stay as they are -/

mutual

/-- Recording leaves a statement alone whose blocks are complete. -/
theorem statement_eq_self : (s : Statement) → CompleteWithin s → statement s = s
  | .function _ _ body, h => by rw [statement, block_eq_self _ body h.1 h.2]
  | .whileLoop _ body, h => by rw [statement, block_eq_self _ body h.1 h.2]
  | .forLoop _ _ body, h => by rw [statement, block_eq_self _ body h.1 h.2]
  | .branch _ body other, h => by
    rw [statement, block_eq_self _ body h.1.1 h.1.2, block_eq_self _ other h.2.1 h.2.2]
  | .assign _ _, _ => rfl
  | .update _ _ _, _ => rfl
  | .result _, _ => rfl
  | .breakLoop, _ => rfl
  | .continueLoop, _ => rfl
  | .pass, _ => rfl
  | .expression _, _ => rfl

theorem block_eq_self (has : Bool) : (ss : List Statement) →
    (has = true ∨ ∀ s ∈ ss, s.assigned? = none) → AllCompleteWithin ss → block has ss = ss
  | [], _, _ => rfl
  | s :: ss, hcalls, h => by
    have hs := statement_eq_self s h.1
    have hafter : callsAfter has s = [] := by
      rcases hcalls with rfl | hnone
      · rfl
      · simp [callsAfter, hnone s (List.mem_cons_self ..)]
    have hss := block_eq_self has ss
      (hcalls.imp_right fun hnone x hx => hnone x (List.mem_cons_of_mem s hx)) h.2
    rw [block, ← callsAfter, hs, hafter, hss, List.nil_append]

end

/-! ### Programs -/

/-- Recording changes nothing exactly where every block of the program has a call, or no plain
assignment in it. -/
theorem recorded_eq_self_iff {m : Module} :
    recorded m = m ↔ Complete m.body ∧ AllCompleteWithin m.body := by
  constructor
  · intro h
    have hbody : block (m.body.any isCall) m.body = m.body := congrArg Module.body h
    have hcomplete := complete_block m.body
    have hwithin := allCompleteWithin_block (m.body.any isCall) m.body
    rw [hbody] at hcomplete hwithin
    exact ⟨hcomplete, hwithin⟩
  · rintro ⟨hcomplete, hwithin⟩
    exact congrArg Module.mk (block_eq_self _ m.body hcomplete hwithin)

/-- A program that records needs no recording, whatever calls stood in some of its blocks before. -/
theorem recorded_recorded (m : Module) : recorded (recorded m) = recorded m :=
  recorded_eq_self_iff.mpr ⟨complete_block m.body, allCompleteWithin_block _ m.body⟩

-- The body of the branch has a call already, so that only the program itself receives one.
example :
    let inner : List Statement := [.assign (.name "y") .none, call "x"]
    let m : Module := ⟨[.assign (.name "x") .none, .branch .none inner []]⟩
    (recorded m).body = [.assign (.name "x") .none, call "x", .branch .none inner []] :=
  rfl

end Growth.Code.Recording
