import Growth.Place
import Mathlib.Data.List.DropRight

/-! Places behind texts. A place behind a text is known from the line ends in it, from the
characters behind the last of them, and from the number of its bytes. -/

namespace Growth

namespace Position

theorem after_append (p : Position) (cs ds : List Char) :
    p.after (cs ++ ds) = (p.after cs).after ds :=
  List.foldl_append

/-- The place behind a text: as many lines down as it has line ends, and as far along the line as
there are characters behind the last of them. -/
def behind (cs : List Char) : Position :=
  ⟨1 + cs.count '\n', (cs.rtakeWhile (· ≠ '\n')).length⟩

theorem start_after (cs : List Char) : start.after cs = behind cs := by
  -- Places are counted from the front, and the characters on the last line from the back.
  induction cs using List.reverseRecOn with
  | nil => rfl
  | append_singleton cs c ih =>
    rw [after_append, ih]
    change (behind cs).step c = _
    unfold step behind
    split
    · rename_i hc
      rw [hc, List.count_append, List.rtakeWhile_concat_neg _ _ _ (by simp)]
      rfl
    · rename_i hc
      rw [List.count_append, List.rtakeWhile_concat_pos _ _ _ (by simpa using hc),
        List.count_singleton]
      simp [hc]

end Position

namespace Place

theorem after_append (p : Place) (cs ds : List Char) :
    p.after (cs ++ ds) = (p.after cs).after ds :=
  List.foldl_append

theorem after_eq (p : Place) (cs : List Char) :
    p.after cs = ⟨p.offset + (String.ofList cs).utf8ByteSize, p.position.after cs⟩ := by
  induction cs generalizing p with
  | nil => rfl
  | cons c cs ih =>
    change (p.step c).after cs = _
    rw [ih, String.ofList_cons, String.utf8ByteSize_append, String.utf8ByteSize_singleton,
      ← Nat.add_assoc]
    rfl

/-- The place behind a text, counted from the beginning. -/
theorem start_after (cs : List Char) :
    start.after cs = ⟨(String.ofList cs).utf8ByteSize, .behind cs⟩ := by
  rw [after_eq, ← Position.start_after]
  simp [start]

end Place

end Growth
