import Growth.Document.Scanner

/-! What a document says: one mapping from texts to scalars, written in lines or in braces. A scalar
that has an anchor may be referred to in place of others. -/

namespace Growth.Document

/-- A name with its value. -/
abbrev Entry := List Char × Scalar

/-! ### Pieces of names and values -/

/-- A name and a value as they are written; either may be left out. -/
abbrev RawEntry := List Piece × List Piece

/-- The pieces at the beginning of `ts`. -/
def pieces : List Token → List Piece
  | .piece p :: ts => p :: pieces ts
  | _ => []

/-- The tokens after those pieces. -/
def afterPieces : List Token → List Token
  | .piece _ :: ts => afterPieces ts
  | ts => ts

theorem length_afterPieces_le (ts : List Token) : (afterPieces ts).length ≤ ts.length := by
  fun_induction afterPieces ts with
  | case1 _ ts ih => exact Nat.le_succ_of_le ih
  | case2 => exact Nat.le_refl _

/-- The value at the beginning of `ts`. -/
def valuePieces : List Token → List Piece
  | .value :: ts => pieces ts
  | _ => []

/-- The tokens after that value. -/
def afterValue : List Token → List Token
  | .value :: ts => afterPieces ts
  | ts => ts

theorem length_afterValue_le (ts : List Token) : (afterValue ts).length ≤ ts.length := by
  unfold afterValue
  split
  · exact Nat.le_succ_of_le (length_afterPieces_le _)
  · exact Nat.le_refl _

/-- The entries of a mapping in lines, and the tokens after it. -/
def lineEntries? (ts : List Token) : Option (List RawEntry × List Token) :=
  match ts with
  | .mappingEnd :: rest => some ([], rest)
  | .key :: rest =>
    let after := afterPieces rest
    (lineEntries? (afterValue after)).map fun (more, left) =>
      ((pieces rest, valuePieces after) :: more, left)
  | _ => none
termination_by ts.length
decreasing_by
  have h1 := length_afterValue_le (afterPieces rest)
  have h2 := length_afterPieces_le rest
  simp only [List.length_cons]
  omega

/-- The entry at the beginning of `ts` in braces, and the tokens after it. Without a token for a name it
is a name alone, which may not be left out. -/
def braceEntry? (ts : List Token) : Option (RawEntry × List Token) :=
  match ts with
  | .key :: rest =>
    let after := afterPieces rest
    some ((pieces rest, valuePieces after), afterValue after)
  | ts => if (pieces ts).isEmpty then none else some ((pieces ts, []), afterPieces ts)

theorem length_braceEntry?_le {ts rest : List Token} {e : RawEntry}
    (h : braceEntry? ts = some (e, rest)) : rest.length ≤ ts.length := by
  unfold braceEntry? at h
  split at h
  · rename_i after
    have h1 := length_afterValue_le (afterPieces after)
    have h2 := length_afterPieces_le after
    simp only [Option.some.injEq, Prod.mk.injEq] at h
    rw [← h.2, List.length_cons]
    omega
  · split at h
    · simp at h
    · simp only [Option.some.injEq, Prod.mk.injEq] at h
      exact h.2 ▸ length_afterPieces_le _

/-- The entries up to the closing brace, and the tokens after it. A comma may stand after the last. -/
def braceEntries? (ts : List Token) : Option (List RawEntry × List Token) :=
  match ts with
  | .closeBrace :: rest => some ([], rest)
  | ts =>
    match _h : braceEntry? ts with
    | none => none
    | some (e, .comma :: rest) => (braceEntries? rest).map fun (more, left) => (e :: more, left)
    | some (e, .closeBrace :: rest) => some ([e], rest)
    | some _ => none
termination_by ts.length
decreasing_by
  have := length_braceEntry?_le _h
  simp only [List.length_cons] at this
  omega

/-! ### Anchors and tags -/

/-- What the anchors so far stand for. Each has a number, of which there are as many as there are names,
so that a name given once more may take another name's number with it. -/
structure Anchors where
  numbers : List (List Char × Nat)
  /-- The scalars with anchors, the last first; nothing for the mapping itself. -/
  scalars : List (Nat × Option Scalar)

/-- The anchors with one more. -/
def Anchors.insert (a : Anchors) (name : List Char) (s : Option Scalar) : Anchors :=
  let n := a.numbers.length
  ⟨(name, n) :: a.numbers.filter (·.1 != name), (n, s) :: a.scalars⟩

/-- What stands before a scalar or a mapping. -/
structure Properties where
  anchor : Option (List Char)
  tag : Option Tag

/-- The properties at the beginning of pieces, and the other pieces. -/
def properties : List Piece → Properties × List Piece
  | .anchor a :: .tag t :: ps => (⟨some a, some t⟩, ps)
  | .tag t :: .anchor a :: ps => (⟨some a, some t⟩, ps)
  | .anchor a :: ps => (⟨some a, none⟩, ps)
  | .tag t :: ps => (⟨none, some t⟩, ps)
  | ps => (⟨none, none⟩, ps)

/-- The anchors with that of the properties. -/
def Anchors.insertFor (a : Anchors) (p : Properties) (s : Option Scalar) : Anchors :=
  p.anchor.elim a fun name => a.insert name s

/-- What handles stand for. -/
abbrev Handles := List (List Char × List Char)

/-- The tag in full. A handle has to stand for something. -/
def Tag.full? (handles : Handles) (t : Tag) : Option (List Char) :=
  if t.handle.isEmpty then some t.suffix else (handles.lookup t.handle).map (· ++ t.suffix)

/-- The tag of the properties in full, if there is one. -/
def Properties.tag? (handles : Handles) (p : Properties) : Option (Option (List Char)) :=
  match p.tag with
  | none => some none
  | some t => (t.full? handles).map some

/-- A name or a value: a scalar, or the number of an anchor. -/
inductive Node where
  | scalar (s : Scalar)
  | reference (number : Nat)

/-- The node that pieces are, and the anchors after it. Properties alone belong to a scalar that is left
out. -/
def node? (handles : Handles) (anchors : Anchors) (ps : List Piece) : Option (Node × Anchors) :=
  match properties ps with
  | (⟨none, none⟩, [.reference name]) =>
    (anchors.numbers.lookup name).map fun n => (.reference n, anchors)
  | (p, content) =>
    (p.tag? handles).bind fun tag =>
    let found := match content with
      | [] => some { Scalar.absent with tag }
      | [.scalar text style] => some ⟨text, style, tag⟩
      | _ => none
    found.map fun s => (.scalar s, anchors.insertFor p (some s))

/-- The nodes of entries, and the anchors after them. -/
def nodes? (handles : Handles) (anchors : Anchors) :
    List RawEntry → Option (List (Node × Node) × Anchors)
  | [] => some ([], anchors)
  | (key, value) :: more =>
    (node? handles anchors key).bind fun (key, anchors) =>
    (node? handles anchors value).bind fun (value, anchors) =>
    (nodes? handles anchors more).map fun (more, anchors) => ((key, value) :: more, anchors)

/-- The scalar that a node comes to; the mapping itself is none. -/
def Node.scalar? (anchors : Anchors) : Node → Option Scalar
  | scalar s => some s
  | reference n => (anchors.scalars.lookup n).join

/-- The entries that raw entries come to. References are looked up when all anchors are known. -/
def resolved? (handles : Handles) (anchors : Anchors) (raw : List RawEntry) : Option (List Entry) :=
  (nodes? handles anchors raw).bind fun (nodes, anchors) =>
    nodes.mapM fun (key, value) =>
      (key.scalar? anchors).bind fun key =>
      (value.scalar? anchors).map fun value => (key.text, value)

/-! ### Documents -/

/-- What handles stand for where no directive says otherwise. -/
def standardHandles : Handles :=
  [("!".toList, "!".toList), ("!!".toList, standardTag "")]

/-- The directives at the beginning of `ts`, and the tokens after them. -/
def directives : List Token → List Directive × List Token
  | .directive d :: ts =>
    let (more, rest) := directives ts
    (d :: more, rest)
  | ts => ([], ts)

/-- The handles that directives give. Each is given once, and so is the version, which is 1.1 or 1.2. -/
def handles? (ds : List Directive) : Option Handles :=
  let versions := ds.filterMap fun
    | .version major minor => some (major, minor)
    | .handle .. => none
  let handles := ds.filterMap fun
    | .version .. => none
    | .handle name expansion => some (name, expansion)
  if versions.length ≤ 1 && versions.all (fun v => v == (1, 1) || v == (1, 2)) &&
      (handles.map Prod.fst).Nodup then
    some (handles ++ standardHandles)
  else none

/-- The entries of the mapping at the beginning of `ts`, and the tokens after it. What is left out, and
may be if `started`, counts as a mapping without entries. -/
def content? (handles : Handles) (started : Bool) (ts : List Token) :
    Option (List Entry × List Token) :=
  let ps := pieces ts
  let (p, content) := properties ps
  (p.tag? handles).bind fun _ =>
  let anchors := Anchors.insertFor ⟨[], []⟩ p none
  let mapping (found : Option (List RawEntry × List Token)) : Option (List Entry × List Token) :=
    if content.isEmpty then
      found.bind fun (raw, rest) => (resolved? handles anchors raw).map fun es => (es, rest)
    else none
  match afterPieces ts with
  | .mappingStart :: rest => mapping (lineEntries? rest)
  | .openBrace :: rest => mapping (braceEntries? rest)
  | rest =>
    if content.isEmpty && (started || !ps.isEmpty) then some ([], rest) else none

/-- The entries that tokens come to. After the mapping, only marks for its end may stand. -/
def ofTokens? : List Token → Option (List Entry)
  | [] => some []
  | ts =>
    let (ds, rest) := directives ts
    let found := match rest with
      | .documentStart :: rest => (handles? ds).bind fun handles => content? handles true rest
      | rest => if ds.isEmpty then content? standardHandles false rest else none
    found.bind fun (entries, rest) => if rest.all (· == .documentEnd) then some entries else none

/-- The entries of a document; none if nothing is in it. -/
def entries? (document : List Char) : Option (List Entry) :=
  if document.all isAllowed then
    (Scanner.ofText (withLineFeeds document)).tokens?.bind ofTokens?
  else none

end Growth.Document
