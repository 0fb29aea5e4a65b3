import Growth.Proofs.Code.Recorded
import Mathlib.Data.List.Forall2

/-! What recording adds to a program, and that it adds nothing else. Without the calls of the routine
a program that records is the program that it was before. The blocks of the two go together one by
one: a block with calls keeps its statements, and in a block without them each plain assignment is
followed by the call that records it, and no other statement by any. -/

namespace Growth.Code

/-! ### The blocks of a program -/

mutual

/-- The blocks in a statement, each before those in it. -/
def Statement.blocks : Statement → List (List Statement)
  | .function _ _ body | .whileLoop _ body | .forLoop _ _ body => body :: blocksIn body
  | .branch _ body other => (body :: blocksIn body) ++ other :: blocksIn other
  | _ => []

def blocksIn : List Statement → List (List Statement)
  | [] => []
  | s :: ss => s.blocks ++ blocksIn ss

end

/-- The blocks of a program, each before those in it. -/
def Module.blocks (m : Module) : List (List Statement) :=
  m.body :: blocksIn m.body

/-- A statement with nothing in its blocks. -/
def Statement.emptied : Statement → Statement
  | .function name parameters _ => .function name parameters []
  | .whileLoop condition _ => .whileLoop condition []
  | .forLoop counter iterable _ => .forLoop counter iterable []
  | .branch condition _ _ => .branch condition [] []
  | s => s

namespace Recording

theorem emptied_statement (s : Statement) : (statement s).emptied = s.emptied := by
  cases s <;> rfl

/-! ### Programs without calls -/

mutual

/-- A statement without the calls of the routine in its blocks. -/
def erasedStatement : Statement → Statement
  | .function name parameters body => .function name parameters (erasedBlock body)
  | .whileLoop condition body => .whileLoop condition (erasedBlock body)
  | .forLoop counter iterable body => .forLoop counter iterable (erasedBlock body)
  | .branch condition body other => .branch condition (erasedBlock body) (erasedBlock other)
  | s => s

/-- A block without the calls of the routine, and so all blocks in it. -/
def erasedBlock : List Statement → List Statement
  | [] => []
  | s :: ss => if isCall s then erasedBlock ss else erasedStatement s :: erasedBlock ss

end

def erased (m : Module) : Module :=
  ⟨erasedBlock m.body⟩

theorem erasedBlock_callsAfter_append (has : Bool) (s : Statement) (ss : List Statement) :
    erasedBlock (callsAfter has s ++ ss) = erasedBlock ss := by
  cases has with
  | true => rfl
  | false =>
    unfold callsAfter
    cases s.assigned? with
    | none => rfl
    | some n => exact if_pos (isCall_call n)

mutual

/-- Erasing the calls undoes recording. -/
theorem erasedStatement_statement :
    (s : Statement) → erasedStatement (statement s) = erasedStatement s
  | .function _ _ body | .whileLoop _ body | .forLoop _ _ body => by
    rw [statement, erasedStatement, erasedStatement, erasedBlock_block]
  | .branch _ body other => by
    rw [statement, erasedStatement, erasedStatement, erasedBlock_block, erasedBlock_block]
  | .assign _ _ | .update _ _ _ | .result _ | .breakLoop | .continueLoop | .pass
  | .expression _ => rfl

theorem erasedBlock_block (has : Bool) :
    (ss : List Statement) → erasedBlock (block has ss) = erasedBlock ss
  | [] => rfl
  | s :: ss => by
    have hs := erasedStatement_statement s
    have hss := erasedBlock_block has ss
    rw [block, ← callsAfter, erasedBlock, isCall_statement, erasedBlock_callsAfter_append, hs, hss,
      erasedBlock]

end

theorem erased_recorded (m : Module) : erased (recorded m) = erased m :=
  congrArg Module.mk (erasedBlock_block _ m.body)

/-! ### Blocks that receive calls -/

theorem map_emptied_block_true (ss : List Statement) :
    (block true ss).map Statement.emptied = ss.map Statement.emptied := by
  induction ss with
  | nil => rfl
  | cons s ss ih =>
    rw [block, if_pos rfl, List.nil_append, List.map_cons, emptied_statement, ih, List.map_cons]

section WithoutCalls

variable {ss : List Statement}

/-- What stands in a block by itself, without calls, is what stood in it before. -/
theorem map_emptied_filter_block (h : ∀ s ∈ ss, isCall s = false) :
    ((block false ss).filter fun s => !isCall s).map Statement.emptied =
      ss.map Statement.emptied := by
  induction ss with
  | nil => rfl
  | cons s ss ih =>
    obtain ⟨hs, hss⟩ := List.forall_mem_cons.mp h
    have hcalls : (callsAfter false s).filter (fun s => !isCall s) = [] := by
      refine List.filter_eq_nil_iff.mpr fun x hx => ?_
      obtain ⟨n, -, rfl⟩ := mem_callsAfter hx
      simp [isCall_call]
    rw [block, ← callsAfter, List.filter_cons_of_pos (by simp [isCall_statement, hs]),
      List.filter_append, hcalls, List.nil_append, List.map_cons, emptied_statement, ih hss,
      List.map_cons]

theorem head?_block (h : ∀ s ∈ ss, isCall s = false) :
    (block false ss).head?.filter isCall = none := by
  cases ss with
  | nil => rfl
  | cons s ss =>
    have hs := h s (List.mem_cons_self ..)
    simp [block, isCall_statement, hs]

/-- The call that stands behind a statement, if one does, records what the statement assigns. -/
theorem getElem?_block_succ (h : ∀ s ∈ ss, isCall s = false) (i : Nat) :
    (block false ss)[i + 1]?.filter isCall =
      ((block false ss)[i]?.bind Statement.assigned?).map call := by
  induction ss generalizing i with
  | nil => rfl
  | cons s ss ih =>
    have hss := (List.forall_mem_cons.mp h).2
    have hnext : (block false ss)[0]?.filter isCall = none := by
      rw [← List.head?_eq_getElem?, head?_block hss]
    rw [block, ← callsAfter]
    -- Behind an assignment the indices of what follows are one further, for the call.
    cases hs : s.assigned? with
    | none =>
      have hcalls : callsAfter false s = [] := by simp [callsAfter, hs]
      rw [hcalls, List.nil_append, List.getElem?_cons_succ]
      cases i with
      | zero => simpa [assigned?_statement, hs] using hnext
      | succ i => exact ih hss i
    | some n =>
      have hcalls : callsAfter false s = [call n] := by simp [callsAfter, hs]
      rw [hcalls, List.singleton_append, List.getElem?_cons_succ]
      match i with
      | 0 => simp [assigned?_statement, hs, isCall_call]
      | 1 => exact hnext
      | i + 2 => exact ih hss i

end WithoutCalls

/-! ### Blocks one by one -/

/-- How a block of a program that records comes from the block that it was before. -/
inductive BlockRecorded (before after : List Statement) : Prop
  /-- A block with calls keeps its statements. -/
  | kept (hcalls : before.any isCall = true)
      (hkept : after.map Statement.emptied = before.map Statement.emptied)
  /-- A block without calls keeps its statements and has calls between them. No call comes first, and
  the call directly behind a statement, if there is one, records what the statement assigns, if it is
  a plain assignment. -/
  | spaced (hcalls : before.any isCall = false)
      (hkept : (after.filter fun s => !isCall s).map Statement.emptied =
        before.map Statement.emptied)
      (hfirst : after.head?.filter isCall = none)
      (hbehind : ∀ i,
        after[i + 1]?.filter isCall = (after[i]?.bind Statement.assigned?).map call)

theorem blockRecorded_block (ss : List Statement) :
    BlockRecorded ss (block (ss.any isCall) ss) := by
  cases h : ss.any isCall with
  | true => exact .kept h (map_emptied_block_true ss)
  | false =>
    have hcalls : ∀ s ∈ ss, isCall s = false := by simpa using h
    exact .spaced h (map_emptied_filter_block hcalls) (head?_block hcalls)
      (getElem?_block_succ hcalls)

theorem blocksIn_callsAfter_append (has : Bool) (s : Statement) (ss : List Statement) :
    blocksIn (callsAfter has s ++ ss) = blocksIn ss := by
  cases has with
  | true => rfl
  | false =>
    unfold callsAfter
    cases s.assigned? <;> rfl

mutual

/-- Recording gives each block inside a statement its calls, and makes no other blocks. -/
theorem forall₂_blocks_statement : (s : Statement) →
    List.Forall₂ BlockRecorded s.blocks (statement s).blocks
  | .function _ _ body | .whileLoop _ body | .forLoop _ _ body =>
    .cons (blockRecorded_block body) (forall₂_blocksIn_block _ body)
  | .branch _ body other =>
    List.rel_append (.cons (blockRecorded_block body) (forall₂_blocksIn_block _ body))
      (.cons (blockRecorded_block other) (forall₂_blocksIn_block _ other))
  | .assign _ _ | .update _ _ _ | .result _ | .breakLoop | .continueLoop | .pass
  | .expression _ => .nil

theorem forall₂_blocksIn_block (has : Bool) : (ss : List Statement) →
    List.Forall₂ BlockRecorded (blocksIn ss) (blocksIn (block has ss))
  | [] => .nil
  | s :: ss => by
    rw [block, ← callsAfter, blocksIn, blocksIn, blocksIn_callsAfter_append]
    exact List.rel_append (forall₂_blocks_statement s) (forall₂_blocksIn_block has ss)

end

/-- Without its calls a program that records is the program without its own, and each of its blocks
has the statements of a block before, with the right calls and no others between them. -/
theorem blocks_recorded (m : Module) :
    erased (recorded m) = erased m ∧
      List.Forall₂ BlockRecorded m.blocks (recorded m).blocks :=
  ⟨erased_recorded m, .cons (blockRecorded_block m.body) (forall₂_blocksIn_block _ m.body)⟩

-- The loop has a call already and receives none for `y`, but its own calls do not count for what is
-- around it.
example :
    let inner : List Statement := [call "x", .assign (.name "y") .none]
    let m : Module := ⟨[.assign (.name "x") .none, .whileLoop .none inner]⟩
    (recorded m).body = [.assign (.name "x") .none, call "x", .whileLoop .none inner] ∧
      (erased (recorded m)).body =
        [.assign (.name "x") .none, .whileLoop .none [.assign (.name "y") .none]] :=
  ⟨rfl, rfl⟩

end Recording

end Growth.Code
