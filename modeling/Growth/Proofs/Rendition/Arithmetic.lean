import Growth.Proofs.Pseudo.CompleteCalc
import Growth.Proofs.Rendition.Calculation

/-! Arithmetic keeps its grouping in target code, but for a number with a minus that is raised to a
power. -/

namespace Growth.Pseudo

open Code (Expression Denotes)

/-! ### The tree of a calculation -/

mutual

/-- The tree that a calculation stands for: its operators as they are grouped, without the brackets
that group them. -/
def Calc.tree : Calc → Expression
  | number lexeme => .ofNumeral (Numeral.normal lexeme.toList)
  | name n => .name n
  | call n arguments => .call (.name n) (Calc.trees arguments)
  | item n index => .item (.name n) index.tree
  | group inner => inner.tree
  | set items => .set (Calc.trees items)
  | list items => .list (Calc.trees items)
  | binary left op right => .binary left.tree op right.tree

def Calc.trees : List Calc → List Expression
  | [] => []
  | c :: cs => c.tree :: Calc.trees cs

end

mutual

/-- No number with a minus is raised to a power, unless it stands between brackets. -/
def Calc.powersUnsigned : Calc → Bool
  | number _ | name _ => true
  | call _ arguments => Calc.allPowersUnsigned arguments
  | item _ index => index.powersUnsigned
  | group inner => inner.powersUnsigned
  | set items | list items => Calc.allPowersUnsigned items
  | binary left op right =>
    !(op == .power && left.negated?.isSome) && left.powersUnsigned && right.powersUnsigned

def Calc.allPowersUnsigned : List Calc → Bool
  | [] => true
  | c :: cs => c.powersUnsigned && Calc.allPowersUnsigned cs

end

/-- None of the words is a keyword of target code. -/
def Calc.IsFree (c : Calc) : Prop := ∀ w ∈ c.words, ¬IsBorrowed w

def Calc.AllFree (cs : List Calc) : Prop := ∀ w ∈ Calc.listed cs, ¬IsBorrowed w

namespace Calc.IsFree

variable {n : String} {c left right : Calc} {cs : List Calc} {op : Operator}

theorem ofName? (h : ¬IsBorrowed (.name, n)) (hn : IsName n) :
    Expression.ofName? n = some (.name n) := by
  rw [isBorrowed_name, not_or] at h
  exact hn.ofName?_eq h.1 h.2

theorem call (h : (Calc.call n cs).IsFree) : ¬IsBorrowed (.name, n) ∧ Calc.AllFree cs := by
  simp only [Calc.IsFree, Calc.words, List.cons_append, List.forall_mem_cons,
    List.forall_mem_append] at h
  exact ⟨h.1, h.2.2.1⟩

theorem item (h : (Calc.item n c).IsFree) : ¬IsBorrowed (.name, n) ∧ c.IsFree := by
  simp only [Calc.IsFree, Calc.words, List.cons_append, List.forall_mem_cons,
    List.forall_mem_append] at h
  exact ⟨h.1, h.2.2.1⟩

theorem group (h : (Calc.group c).IsFree) : c.IsFree := by
  simp only [Calc.IsFree, Calc.words, List.cons_append, List.forall_mem_cons,
    List.forall_mem_append] at h
  exact h.2.1

theorem set (h : (Calc.set cs).IsFree) : Calc.AllFree cs := by
  simp only [Calc.IsFree, Calc.words, List.cons_append, List.forall_mem_cons,
    List.forall_mem_append] at h
  exact h.2.1

theorem list (h : (Calc.list cs).IsFree) : Calc.AllFree cs := by
  simp only [Calc.IsFree, Calc.words, List.cons_append, List.forall_mem_cons,
    List.forall_mem_append] at h
  exact h.2.1

theorem binary (h : (Calc.binary left op right).IsFree) : left.IsFree ∧ right.IsFree := by
  simp only [Calc.IsFree, Calc.words, List.forall_mem_append, List.forall_mem_cons] at h
  exact ⟨h.1, h.2.2⟩

end Calc.IsFree

theorem Calc.AllFree.cons {c : Calc} {cs : List Calc} (h : Calc.AllFree (c :: cs)) :
    c.IsFree ∧ Calc.AllFree cs := by
  rw [Calc.AllFree, Calc.listed, List.forall_mem_append] at h
  refine ⟨h.1, ?_⟩
  by_cases hne : cs = []
  · subst hne
    nofun
  · have htail := h.2
    rw [if_neg (by simpa using hne), List.forall_mem_cons] at htail
    exact htail.2

/-! ### What is read for a calculation is its tree -/

mutual

/-- Without keywords among its words a calculation is read, and as its tree exactly if no number
with a minus is raised to a power. -/
theorem Calc.exists_code : (c : Calc) → c.IsSpelled → c.IsFree →
    ∃ x, c.code? = some x ∧ (x = c.tree ↔ c.powersUnsigned = true)
  | .number _, _, _ => ⟨_, rfl, by simp [Calc.tree, Calc.powersUnsigned]⟩
  | .name n, h, hf =>
    ⟨.name n, Calc.IsFree.ofName? (hf _ (.head _)) h.name, by
      simp [Calc.tree, Calc.powersUnsigned]⟩
  | .call n arguments, h, hf => by
    obtain ⟨xs, hxs, hiff⟩ := Calc.exists_codes arguments h.call.2 hf.call.2
    refine ⟨.call (.name n) xs, ?_, ?_⟩
    · rw [Calc.code?, Calc.IsFree.ofName? hf.call.1 h.call.1, hxs]
      rfl
    · rw [Calc.tree, Calc.powersUnsigned, ← hiff, Expression.call.injEq, eq_self, true_and]
  | .item n index, h, hf => by
    obtain ⟨x, hx, hiff⟩ := Calc.exists_code index h.item.2 hf.item.2
    refine ⟨.item (.name n) x, ?_, ?_⟩
    · rw [Calc.code?, Calc.IsFree.ofName? hf.item.1 h.item.1, hx]
      rfl
    · rw [Calc.tree, Calc.powersUnsigned, ← hiff, Expression.item.injEq, eq_self, true_and]
  | .group inner, h, hf => Calc.exists_code inner h.group hf.group
  | .set items, h, hf => by
    obtain ⟨xs, hxs, hiff⟩ := Calc.exists_codes items h.set hf.set
    refine ⟨.set xs, by rw [Calc.code?, hxs]; rfl, ?_⟩
    rw [Calc.tree, Calc.powersUnsigned, ← hiff, Expression.set.injEq]
  | .list items, h, hf => by
    obtain ⟨xs, hxs, hiff⟩ := Calc.exists_codes items h.list hf.list
    refine ⟨.list xs, by rw [Calc.code?, hxs]; rfl, ?_⟩
    rw [Calc.tree, Calc.powersUnsigned, ← hiff, Expression.list.injEq]
  | .binary left op right, h, hf => by
    obtain ⟨x, hx, hleft⟩ := Calc.exists_code left h.binary.1 hf.binary.1
    obtain ⟨y, hy, hright⟩ := Calc.exists_code right h.binary.2 hf.binary.2
    by_cases hn : op = .power ∧ left.negated?.isSome
    · obtain ⟨rfl, hn⟩ := hn
      obtain ⟨digits, hdigits⟩ := Option.isSome_iff_exists.mp hn
      refine ⟨_, by rw [Calc.code?_power_of_negated hdigits, hx, hy]; rfl, ?_⟩
      simp [Calc.tree, Calc.powersUnsigned, hdigits]
    · refine ⟨.binary x op y, ?_, ?_⟩
      · by_cases hop : op = .power
        · subst hop
          have hnone : left.negated? = none := by simpa using hn
          rw [Calc.code?_power hnone, hx, hy]
          rfl
        · rw [Calc.code?_binary hop, hx, hy]
          rfl
      · have hguard : (op == .power && left.negated?.isSome) = false := by simpa using hn
        rw [Calc.tree, Calc.powersUnsigned, hguard, Expression.binary.injEq, hleft, hright]
        simp

theorem Calc.exists_codes : (cs : List Calc) → Calc.AllSpelled cs → Calc.AllFree cs →
    ∃ xs, Calc.codes? cs = some xs ∧ (xs = Calc.trees cs ↔ Calc.allPowersUnsigned cs = true)
  | [], _, _ => ⟨[], rfl, by simp [Calc.trees, Calc.allPowersUnsigned]⟩
  | c :: cs, h, hf => by
    obtain ⟨x, hx, hhead⟩ := Calc.exists_code c (h c (.head _)) hf.cons.1
    obtain ⟨xs, hxs, htail⟩ := Calc.exists_codes cs (fun d hd => h d (.tail _ hd)) hf.cons.2
    refine ⟨x :: xs, by rw [Calc.codes?, hx, hxs]; rfl, ?_⟩
    rw [Calc.trees, Calc.allPowersUnsigned, List.cons.injEq, hhead, htail, Bool.and_eq_true]

end

/-! ### The text of a calculation as a program -/

/-- The text of a calculation is a program of one expression. -/
theorem Calc.ofText_of_code {c : Calc} {x : Expression} (hg : c.Grouped) (h : c.IsSpelled)
    (hx : c.code? = some x) : Code.Module.ofText c.text = .ok ⟨[.expression x]⟩ := by
  have hread : Denotes .tuple false c.text.toList (some x) :=
    hx ▸ (c.denotes hg h).loosen (Nat.zero_le _)
  exact hread.ofText (c.opens h)

/-- Words that are read as a calculation to their end are those of no other one, and target code
reads its text as its tree exactly if no number with a minus is raised to a power. -/
theorem readCalc_tree {ts : List Token} {c : Calc} (hts : ∀ t ∈ ts, Spelled t.word)
    (hnames : ∀ t ∈ ts, t.kind = .name → t.lexeme ∉ reserved ∧ t.lexeme ∉ constants)
    (h : (readCalc ts).value? = some (c, [])) :
    (∀ d : Calc, d.Grouped ∧ d.words = ts.map Token.word ↔ d = c) ∧
      (Code.Module.ofText c.text = .ok ⟨[.expression c.tree]⟩ ↔ c.powersUnsigned = true) := by
  obtain ⟨ws, htaken, hmade⟩ := readCalc_spells ts c [] h
  have hwords : c.words = ts.map Token.word := by simpa [hmade.words] using htaken.symm
  have hspelled : c.IsSpelled := by
    rw [Calc.IsSpelled, hwords, List.forall_mem_map]
    exact hts
  have hfree : c.IsFree := by
    rw [Calc.IsFree, hwords, List.forall_mem_map]
    rintro t ht ⟨hk : t.kind = .name, hmem⟩
    obtain ⟨hr, hc⟩ := hnames t ht hk
    rw [show t.word.2 = t.lexeme by simp [Token.word, hk]] at hmem
    exact hmem.elim hr hc
  constructor
  · intro d
    constructor
    · rintro ⟨hgrouped, hd⟩
      have hread := hgrouped.readable.read (r := []) hd.symm (.nil 0)
      rw [List.append_nil, h] at hread
      exact (Prod.mk.inj (Option.some.inj hread)).1.symm
    · rintro rfl
      exact ⟨hmade.grouped, hwords⟩
  · obtain ⟨x, hx, hiff⟩ := c.exists_code hspelled hfree
    rw [Calc.ofText_of_code hmade.grouped hspelled hx, ← hiff]
    simp

/-- Differences group to the left and powers to the right, also with a minus in the exponent. -/
theorem readCalc_tree_chained :
    let c : Calc := .binary (.binary (.name "a") .minus (.name "b")) .minus
      (.binary (.name "c") .power (.binary (.name "d") .power (.number "-2")))
    (readCalc (tokens "a - b - c ^ d ^ -2")).value? = some (c, []) ∧
      Code.Module.ofText c.text = .ok ⟨[.expression c.tree]⟩ := by
  intro c
  have hgrouped : c.Grouped := by
    have hdifference : Operator.minus.level = 0 := rfl
    have hpower : Operator.power.level = 2 := rfl
    simp [c, Calc.Grouped, Calc.level, hdifference, hpower]
  have hwords : (tokens "a - b - c ^ d ^ -2").map Token.word = c.words := by decide +kernel
  have hread := hgrouped.readable.read (r := []) hwords (.nil 0)
  rw [List.append_nil] at hread
  refine ⟨hread, (readCalc_tree ?_ (by decide +kernel) hread).2.mpr (by decide)⟩
  exact fun t ht => spelled_of_tokens _ (List.mem_map_of_mem ht)

/-- The square of a number with a minus is read as a square with a minus before it. -/
theorem ofText_text_negated_power :
    let c : Calc := .binary (.number "-3") .power (.number "2")
    (readCalc (tokens "-3 ^ 2")).value? = some (c, []) ∧
      c.tree = .binary (.unary .minus (.integer "3")) .power (.integer "2") ∧
      Code.Module.ofText c.text =
        .ok ⟨[.expression (.unary .minus (.binary (.integer "3") .power (.integer "2")))]⟩ := by
  intro c
  have hgrouped : c.Grouped := by simp [c, Calc.Grouped, Calc.level]
  have hwords : (tokens "-3 ^ 2").map Token.word = c.words := by decide +kernel
  have hread := hgrouped.readable.read (r := []) hwords (.nil 0)
  have hspelled : c.IsSpelled := by
    rw [Calc.IsSpelled, ← hwords]
    exact spelled_of_tokens
  exact ⟨by rwa [List.append_nil] at hread, rfl, Calc.ofText_of_code hgrouped hspelled rfl⟩

end Growth.Pseudo
