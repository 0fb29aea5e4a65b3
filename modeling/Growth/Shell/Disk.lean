/-! Files and directories. A file keeps its content while it is open, whatever becomes of its name. -/

namespace Growth.Shell

/-- What is no file but can be opened as one. -/
inductive Device where
  /-- Holds nothing, and what is written to it is lost. -/
  | null
  /-- Holds zeros without end. -/
  | zero
  /-- Has no room. -/
  | full
  /-- Stands for a stream. -/
  | stream (n : Nat)
deriving DecidableEq, Repr

/-- What a path leads to. -/
inductive Entry where
  | directory
  /-- The content with a number. -/
  | file (key : Nat)
  | device (d : Device)
deriving DecidableEq, Repr

/-- The way from the root to an entry. -/
abbrev Path := List String

/-- Entries by their paths, and contents by their numbers. -/
structure Disk where
  entries : List (Path × Entry)
  contents : List (Nat × Array Char)
  /-- No content has this number or a greater one. -/
  fresh : Nat
deriving Repr

/-- Why a path cannot be used. -/
inductive DiskError where
  | missing
  | notDirectory
  | isDirectory
  | taken
  | notEmpty
  | denied
deriving DecidableEq, Repr

/-- The error in words. -/
def DiskError.message : DiskError → String
  | missing => "No such file or directory"
  | notDirectory => "Not a directory"
  | isDirectory => "Is a directory"
  | taken => "File exists"
  | notEmpty => "Directory not empty"
  | denied => "Permission denied"

/-- Writes over characters from a place on. What lies between their end and that place is filled with
zeros. -/
def overwritten (old : Array Char) (place : Nat) (text : List Char) : Array Char :=
  if old.size = place then text.foldl Array.push old
  else
    let cs := old.toList
    let gap := List.replicate (place - cs.length) '\x00'
    (cs.take place ++ gap ++ text ++ cs.drop (place + text.length)).toArray

/-- The characters from a place on up to the end of their line, and that end; less than `fuel`. -/
def lineAt (cs : Array Char) : (fuel place : Nat) → List Char
  | 0, _ => []
  | fuel + 1, place =>
    match cs[place]? with
    | none => []
    | some '\n' => ['\n']
    | some c => c :: lineAt cs fuel (place + 1)

namespace Disk

/-- What is at a path. -/
def entry? (d : Disk) (p : Path) : Option Entry :=
  if p.isEmpty then some .directory else d.entries.lookup p

/-- Whether a directory is at a path. -/
def isDirectory (d : Disk) (p : Path) : Bool :=
  d.entry? p == some .directory

/-- Where steps lead from a directory. All but the last have to lead to directories. -/
def walk (d : Disk) (here : Path) : List String → Except DiskError Path
  | [] => .ok here
  | step :: steps =>
    match d.entry? here with
    | none => .error .missing
    | some .directory =>
      if step == "" || step == "." then walk d here steps
      else if step == ".." then walk d here.dropLast steps
      else walk d (here ++ [step]) steps
    | some _ => .error .notDirectory

/-- Where a text leads from a directory. Nothing need be there yet. -/
def locate (d : Disk) (here : Path) (text : String) : Except DiskError Path :=
  if text.isEmpty then .error .missing
  else d.walk (if text.toList.head? == some '/' then [] else here) (text.splitOn "/")

/-- What a text leads to from a directory. -/
def find (d : Disk) (here : Path) (text : String) : Except DiskError (Path × Entry) := do
  let path ← d.locate here text
  match d.entry? path with
  | some e => return (path, e)
  | none => throw .missing

/-- The characters with a number. -/
def characters (d : Disk) (key : Nat) : Array Char :=
  (d.contents.lookup key).getD #[]

/-- The content with a number. -/
def content (d : Disk) (key : Nat) : String :=
  String.ofList (d.characters key).toList

/-- The length of the content with a number. -/
def size (d : Disk) (key : Nat) : Nat :=
  (d.characters key).size

/-- With a content for a number. -/
def setContent (d : Disk) (key : Nat) (text : String) : Disk :=
  { d with contents := (key, text.toList.toArray) :: d.contents.filter fun c => c.1 != key }

/-- With a text over a content from a place on. -/
def overwrite (d : Disk) (key place : Nat) (text : List Char) : Disk :=
  { d with
    contents := d.contents.map fun (k, cs) =>
      (k, if k == key then overwritten cs place text else cs) }

/-- With an entry at a path. -/
def put (d : Disk) (p : Path) (e : Entry) : Disk :=
  { d with entries := (p, e) :: d.entries.filter fun x => x.1 != p }

/-- Without what is at a path and below it. -/
def remove (d : Disk) (p : Path) : Disk :=
  { d with entries := d.entries.filter fun x => !p.isPrefixOf x.1 }

/-- With a new file at a path, and the number of its content. -/
def create (d : Disk) (p : Path) (text : String) : Disk × Nat :=
  ({ (d.put p (.file d.fresh)).setContent d.fresh text with fresh := d.fresh + 1 }, d.fresh)

/-- The names in a directory, in order. -/
def names (d : Disk) (p : Path) : List String :=
  let inside := d.entries.filterMap fun x =>
    if x.1.dropLast == p && !x.1.isEmpty then x.1.getLast? else none
  inside.mergeSort fun a b => decide (a ≤ b)

/-- Moves what is at a path, and what is below it, to another path. -/
def move (d : Disk) (source target : Path) : Disk :=
  let d := { d with entries := d.entries.filter fun x => x.1 != target }
  { d with
    entries := d.entries.map fun x =>
      if source.isPrefixOf x.1 then (target ++ x.1.drop source.length, x.2) else x }

end Disk

end Growth.Shell
