import Growth.CommandLine
import Growth.Proofs.Decimal

/-! Arguments come in groups: an option with what it sets, or the input. The groups ask for the same
in every order in which they are given, and of what is given several times the last counts. -/

namespace Growth

namespace Text

/-! ### Whole numbers -/

theorem digit?_ten {c : Char} (h : c.isDigit = true) :
    digit? 10 c = some (c.toNat - '0'.toNat) := by
  have hlt := Decimal.digit_lt_ten h
  simp only [digit?, if_pos h, Option.filter_some, decide_eq_true hlt, if_true]

theorem le_ofDigitChars (cs : List Char) (value : Nat) : value ≤ Nat.ofDigitChars 10 cs value := by
  induction cs generalizing value with
  | nil => exact Nat.le_refl value
  | cons c cs ih =>
    rw [Nat.ofDigitChars_cons]
    have hmore := ih (10 * value + (c.toNat - '0'.toNat))
    omega

/-- Digits of a number that is not too large are read as that number. -/
theorem readDigits_of_le {cs : List Char} (hcs : Decimal.AllDigits cs) {bound value : Nat}
    (h : Nat.ofDigitChars 10 cs value ≤ bound) :
    readDigits 10 bound value cs = .ok (Nat.ofDigitChars 10 cs value) := by
  induction cs generalizing value with
  | nil => rfl
  | cons c cs ih =>
    rw [Nat.ofDigitChars_cons] at h ⊢
    have hnext := le_ofDigitChars cs (10 * value + (c.toNat - '0'.toNat))
    have hbound : ¬bound < 10 * value + (c.toNat - '0'.toNat) := by omega
    simp only [readDigits, digit?_ten (hcs c (.head _)), if_neg hbound]
    exact ih (fun d hd => hcs d (.tail c hd)) h

/-- A number that is written in digits is read back. -/
theorem readWhole_toString {bound n : Nat} (h : n ≤ bound) :
    readWhole 10 bound (toString n).toList = .ok n := by
  have hdigits := Decimal.allDigits_toDigits n
  have hread : readDigits 10 bound 0 (Nat.toDigits 10 n) = .ok n := by
    have hvalue : Nat.ofDigitChars 10 (Nat.toDigits 10 n) 0 = n := Nat.ofDigitChars_ten_toDigits
    rw [readDigits_of_le hdigits (by omega), hvalue]
  rw [Nat.toString_eq_repr, Nat.toList_repr]
  cases hcs : Nat.toDigits 10 n with
  | nil => exact absurd hcs Nat.toDigits_ne_nil
  | cons c cs =>
    rw [hcs] at hread hdigits
    have hplus : c ≠ '+' := (Decimal.not_isDigit_sign (hdigits c (.head _))).2
    unfold readWhole
    split <;> simp_all

end Text

namespace CommandLine

/-- Arguments that belong together: an option with what it sets, or the input. -/
inductive Group where
  | codeOnly (short : Bool)
  | target
  | mapping
  | settingsPath (short : Bool) (path : String)
  | interpreter (name : String)
  | timeout (n : UInt64)
  | inputPath (path : String)
deriving DecidableEq, Repr

namespace Group

/-- The arguments of a group. -/
def arguments : Group → List String
  | codeOnly short => [if short then "-t" else "--translate-only"]
  | target => ["--target"]
  | mapping => ["--yaml"]
  | settingsPath short path => [if short then "-c" else "--config", path]
  | interpreter name => ["--python", name]
  | timeout n => ["--timeout-ms", toString n.toNat]
  | inputPath path => [path]

/-- The path of settings that a group gives. -/
def settingsPath? : Group → Option String
  | settingsPath _ path => some path
  | _ => none

/-- The interpreter that a group gives. -/
def interpreter? : Group → Option String
  | interpreter name => some name
  | _ => none

/-- The time that a group gives. -/
def timeout? : Group → Option Nat
  | timeout n => some n.toNat
  | _ => none

/-- The input that a group gives. -/
def inputPath? : Group → Option String
  | inputPath path => some path
  | _ => none

end Group

/-- A path that is not taken for an option. -/
def IsInput (path : String) : Prop :=
  path = "-" ∨ path.toList.head? ≠ some '-'

attribute [ext] Options

namespace Options

/-- The options with those of one more group. -/
def given (o : Options) : Group → Options
  | .codeOnly _ => { o with codeOnly := true }
  | .target => { o with target := true }
  | .mapping => { o with mapping := true }
  | .settingsPath _ path => { o with settingsPath := some path }
  | .interpreter name => { o with interpreter := some name }
  | .timeout n => { o with timeout := some n.toNat }
  | .inputPath path => { o with inputPath := some path }

/-- The groups ask for what the options say, in whatever order. A flag may be given again, and of
several values for an option the last counts; the input is given once at most. -/
structure AskedBy (o : Options) (gs : List Group) : Prop where
  codeOnly : o.codeOnly = true ↔ ∃ short, .codeOnly short ∈ gs
  target : o.target = true ↔ .target ∈ gs
  mapping : o.mapping = true ↔ .mapping ∈ gs
  settingsPath : o.settingsPath = (gs.filterMap Group.settingsPath?).getLast?
  interpreter : o.interpreter = (gs.filterMap Group.interpreter?).getLast?
  timeout : o.timeout = (gs.filterMap Group.timeout?).getLast?
  inputPath : o.inputPath.toList = gs.filterMap Group.inputPath?

/-- One group for each thing that the options say; the flags `short` and `short'` choose between the
forms of an option. -/
def groups (o : Options) (short short' : Bool) : List Group :=
  (if o.codeOnly then [.codeOnly short] else []) ++ (if o.target then [.target] else []) ++
    (if o.mapping then [.mapping] else []) ++ o.settingsPath.toList.map (.settingsPath short') ++
    o.interpreter.toList.map .interpreter ++
    o.timeout.toList.map (fun n => .timeout (UInt64.ofNat n)) ++ o.inputPath.toList.map .inputPath

/-! ### One group after the other -/

variable {o : Options} {gs : List Group}

theorem lookup_of_isInput {path : String} (h : IsInput path) :
    Setting.table.lookup path = .none := by
  have hoptions : ∀ entry ∈ Setting.table, entry.1 ≠ "-" ∧ entry.1.toList.head? = some '-' := by
    decide
  rw [List.lookup_eq_none_iff]
  intro entry hentry
  obtain ⟨hname, hdash⟩ := hoptions entry hentry
  rw [bne_iff_ne]
  rintro rfl
  exact h.elim hname fun hne => hne hdash

theorem add_inputPath {path : String} (hpath : IsInput path) (ho : o.inputPath = .none)
    (rest : List String) : o.add (path :: rest) = { o with inputPath := some path }.add rest := by
  have hdash : (path.toList.head? = some '-' && path != "-") = false := by
    rcases hpath with rfl | hpath
    · rfl
    · simp [hpath]
  rw [add.eq_def]
  simp only [lookup_of_isInput hpath, hdash, ho]
  rfl

theorem add_timeout (o : Options) (n : UInt64) (rest : List String) :
    o.add ("--timeout-ms" :: toString n.toNat :: rest) =
      { o with timeout := some n.toNat }.add rest := by
  have hle : n.toNat ≤ Settings.longest := Nat.le_sub_one_of_lt n.toNat_lt
  have hoption : Setting.table.lookup "--timeout-ms" = some .timeout := rfl
  rw [add.eq_def]
  simp only [hoption, Text.readWhole_toString hle]

/-- A group is taken as a whole, whatever stands behind it. -/
theorem add_group {g : Group} (hinput : ∀ path, g = .inputPath path → IsInput path)
    (honce : ∀ path, g = .inputPath path → o.inputPath = .none) (rest : List String) :
    o.add (g.arguments ++ rest) = (o.given g).add rest := by
  cases g with
  | codeOnly short => cases short <;> rfl
  | target => rfl
  | mapping => rfl
  | settingsPath short path => cases short <;> rfl
  | interpreter name => rfl
  | timeout n => exact add_timeout o n rest
  | inputPath path => exact add_inputPath (hinput path rfl) (honce path rfl) rest

theorem add_groups (hinput : ∀ path, .inputPath path ∈ gs → IsInput path)
    (honce : (o.inputPath.toList ++ gs.filterMap Group.inputPath?).length ≤ 1) :
    o.add (gs.flatMap Group.arguments) = .ok (gs.foldl given o) := by
  induction gs generalizing o with
  | nil => rfl
  | cons g gs ih =>
    have hfirst : ∀ path, g = .inputPath path → o.inputPath = .none := by
      rintro path rfl
      cases hpath : o.inputPath with
      | none => rfl
      | some path' => simp [hpath, Group.inputPath?] at honce
    have hrest : ((o.given g).inputPath.toList ++ gs.filterMap Group.inputPath?).length ≤ 1 := by
      cases g with
      | inputPath path => simpa [hfirst path rfl, Group.inputPath?, given] using honce
      | _ => exact honce
    rw [List.flatMap_cons, List.foldl_cons, add_group (fun path h => hinput path (h ▸ .head _))
      hfirst]
    exact ih (fun path h => hinput path (.tail _ h)) hrest

/-! ### What all groups give -/

/-- Of several values for one option the last counts. -/
theorem foldl_value {α : Type} (field : Options → Option α) (value? : Group → Option α)
    (h : ∀ o g, field (given o g) = (value? g).or (field o)) (gs : List Group) (o : Options) :
    field (gs.foldl given o) = (gs.filterMap value?).getLast?.or (field o) := by
  induction gs generalizing o with
  | nil => rfl
  | cons g gs ih =>
    rw [List.foldl_cons, ih, h]
    cases hg : value? g with
    | none => rw [List.filterMap_cons_none hg, Option.none_or]
    | some a =>
      rw [List.filterMap_cons_some hg, List.getLast?_cons]
      cases (gs.filterMap value?).getLast? <;> rfl

theorem foldl_flag (field : Options → Bool) (asks : Group → Prop)
    (h : ∀ o g, field (given o g) = true ↔ field o = true ∨ asks g) (gs : List Group)
    (o : Options) :
    field (gs.foldl given o) = true ↔ field o = true ∨ ∃ g ∈ gs, asks g := by
  induction gs generalizing o with
  | nil => simp
  | cons g gs ih =>
    rw [List.foldl_cons, ih, h, or_assoc]
    simp only [List.mem_cons, exists_eq_or_imp]

/-- The groups that ask for the options give just these. -/
theorem AskedBy.foldl_eq (h : o.AskedBy gs) : gs.foldl given none = o := by
  have hflag (field : Options → Bool) (asks : Group → Prop) (hnone : field none = false)
      (hgiven : ∀ o g, field (given o g) = true ↔ field o = true ∨ asks g) :
      field (gs.foldl given none) = true ↔ ∃ g ∈ gs, asks g := by
    simpa [hnone] using foldl_flag field asks hgiven gs none
  have hvalue {α : Type} (field : Options → Option α) (value? : Group → Option α)
      (hnone : field none = .none) (hgiven : ∀ o g, field (given o g) = (value? g).or (field o)) :
      field (gs.foldl given none) = (gs.filterMap value?).getLast? := by
    rw [foldl_value field value? hgiven, hnone, Option.or_none]
  have hinput : o.inputPath = (gs.filterMap Group.inputPath?).getLast? := by
    rw [← h.inputPath]
    cases o.inputPath <;> rfl
  apply Options.ext
  · rw [Bool.eq_iff_iff, h.codeOnly, hflag Options.codeOnly (∃ short, · = .codeOnly short) rfl
      fun o g => by cases g <;> simp [given]]
    exact ⟨fun ⟨g, hg, short, hshort⟩ => ⟨short, hshort ▸ hg⟩, fun ⟨short, hg⟩ => ⟨_, hg, short, rfl⟩⟩
  · rw [Bool.eq_iff_iff, h.target, hflag Options.target (· = .target) rfl
      fun o g => by cases g <;> simp [given], exists_eq_right]
  · rw [Bool.eq_iff_iff, h.mapping, hflag Options.mapping (· = .mapping) rfl
      fun o g => by cases g <;> simp [given], exists_eq_right]
  · rw [h.settingsPath, hvalue Options.settingsPath Group.settingsPath? rfl
      fun o g => by cases g <;> rfl]
  · rw [h.interpreter, hvalue Options.interpreter Group.interpreter? rfl
      fun o g => by cases g <;> rfl]
  · rw [h.timeout, hvalue Options.timeout Group.timeout? rfl fun o g => by cases g <;> rfl]
  · rw [hinput, hvalue Options.inputPath Group.inputPath? rfl fun o g => by cases g <;> rfl]

/-! ### Groups in any order -/

theorem eq_toList_of_perm {α : Type} {as : List α} {a : Option α} (h : as.Perm a.toList) :
    as = a.toList := by
  cases a with
  | none => exact h.eq_nil
  | some a => exact List.perm_singleton.mp h

/-- What is not given by a flag is given by the groups with values. -/
theorem filterMap_groups {α : Type} (o : Options) {short short' : Bool}
    (value? : Group → Option α) (hcode : value? (.codeOnly short) = .none)
    (htarget : value? .target = .none) (hmapping : value? .mapping = .none) :
    (o.groups short short').filterMap value? =
      (o.settingsPath.bind fun path => value? (.settingsPath short' path)).toList ++
      (o.interpreter.bind fun name => value? (.interpreter name)).toList ++
      (o.timeout.bind fun n => value? (.timeout (UInt64.ofNat n))).toList ++
      (o.inputPath.bind fun path => value? (.inputPath path)).toList := by
  have hflag (b : Bool) {g : Group} (hg : value? g = .none) :
      (if b then [g] else []).filterMap value? = [] := by
    cases b with
    | false => rfl
    | true => exact List.filterMap_cons_none hg
  have hgroup {β : Type} (b : Option β) (group : β → Group) :
      (b.toList.map group).filterMap value? = (b.bind fun b => value? (group b)).toList := by
    cases b with
    | none => rfl
    | some b => simp [Option.toList, List.filterMap_cons]; cases value? (group b) <;> rfl
  simp only [groups, List.filterMap_append, hflag _ hcode, hflag _ htarget, hflag _ hmapping,
    hgroup, List.nil_append]

/-- The groups of the options ask for them in each order. -/
theorem askedBy_of_perm {short short' : Bool} (htimeout : ∀ n ∈ o.timeout, n < 2 ^ 64)
    (h : gs.Perm (o.groups short short')) : o.AskedBy gs := by
  have hvalue {α : Type} {value? : Group → Option α} {a : Option α}
      (ha : (o.groups short short').filterMap value? = a.toList) :
      gs.filterMap value? = a.toList :=
    eq_toList_of_perm (ha ▸ h.filterMap value?)
  have hlast {α : Type} (a : Option α) : a = a.toList.getLast? := by cases a <;> rfl
  have htime : (o.timeout.bind fun n => (Group.timeout (UInt64.ofNat n)).timeout?) =
      o.timeout := by
    cases ht : o.timeout with
    | none => rfl
    | some n =>
      have hn : n % 2 ^ 64 = n := Nat.mod_eq_of_lt (htimeout n ht)
      exact congrArg some hn
  constructor
  · simp [h.mem_iff, groups]
  · simp [h.mem_iff, groups]
  · simp [h.mem_iff, groups]
  · rw [hvalue (a := o.settingsPath)]
    · exact hlast _
    · rw [filterMap_groups o _ rfl rfl rfl]
      simp [Group.settingsPath?]
  · rw [hvalue (a := o.interpreter)]
    · exact hlast _
    · rw [filterMap_groups o _ rfl rfl rfl]
      simp [Group.interpreter?]
  · rw [hvalue (a := o.timeout)]
    · exact hlast _
    · rw [filterMap_groups o _ rfl rfl rfl, htime]
      simp [Group.timeout?]
  · refine (hvalue (a := o.inputPath) ?_).symm
    rw [filterMap_groups o _ rfl rfl rfl]
    simp [Group.inputPath?]

/-- Options that can be asked for are asked for by their groups in each order, and also where an
option is given again before; the groups with all their arguments are read as just these options. -/
theorem ofArguments_groups (hboth : ¬(o.codeOnly = true ∧ o.target = true))
    (hinput : ∀ path ∈ o.inputPath, IsInput path) (htimeout : ∀ n ∈ o.timeout, n < 2 ^ 64) :
    (∀ gs short short', gs.Perm (o.groups short short') → o.AskedBy gs) ∧
      ∀ gs, o.AskedBy gs → ofArguments (gs.flatMap Group.arguments) = .ok o := by
  refine ⟨fun gs short short' h => askedBy_of_perm htimeout h, fun gs h => ?_⟩
  have hpaths : ∀ path, .inputPath path ∈ gs → IsInput path := by
    intro path hpath
    have hmem : path ∈ gs.filterMap Group.inputPath? := List.mem_filterMap.mpr ⟨_, hpath, rfl⟩
    rw [← h.inputPath, Option.mem_toList] at hmem
    exact hinput path hmem
  have honce : ((none : Options).inputPath.toList ++ gs.filterMap Group.inputPath?).length ≤ 1 := by
    rw [← h.inputPath]
    cases o.inputPath <;> simp [none]
  have hapart : (o.codeOnly && o.target) = false := by simpa using hboth
  rw [ofArguments, add_groups hpaths honce, h.foldl_eq]
  simp only [hapart, Bool.false_eq_true, if_false]

/-- Options with texts that look like options. -/
def dashed : Options :=
  ⟨true, false, true, some "--python", some "-c", some 18446744073709551615, some "-"⟩

/-- Groups that ask for `dashed`, some of them again. -/
def dashedGroups : List Group :=
  [.timeout 0, .inputPath "-", .interpreter "--yaml", .settingsPath true "--python",
    .codeOnly true, .timeout 18446744073709551615, .interpreter "-c", .mapping, .codeOnly false]

theorem ofArguments_groups_dashed :
    ¬(dashed.codeOnly = true ∧ dashed.target = true) ∧
      (∀ path ∈ dashed.inputPath, IsInput path) ∧ (∀ n ∈ dashed.timeout, n < 2 ^ 64) ∧
      dashed.AskedBy dashedGroups ∧
      ofArguments ["--timeout-ms", "0", "-", "--python", "--yaml", "-c", "--python", "-t",
        "--timeout-ms", "18446744073709551615", "--python", "-c", "--yaml", "--translate-only"] =
        .ok dashed := by
  have hboth : ¬(dashed.codeOnly = true ∧ dashed.target = true) := by decide
  have hinput : ∀ path ∈ dashed.inputPath, IsInput path := by
    rintro _ ⟨⟩
    exact .inl rfl
  have htimeout : ∀ n ∈ dashed.timeout, n < 2 ^ 64 := by
    rintro _ ⟨⟩
    decide
  have hasked : dashed.AskedBy dashedGroups := by
    constructor
    · simp [dashed, dashedGroups]
    · simp [dashed, dashedGroups]
    · simp [dashed, dashedGroups]
    all_goals rfl
  have harguments : dashedGroups.flatMap Group.arguments =
      ["--timeout-ms", "0", "-", "--python", "--yaml", "-c", "--python", "-t", "--timeout-ms",
        "18446744073709551615", "--python", "-c", "--yaml", "--translate-only"] := by
    decide +kernel
  exact ⟨hboth, hinput, htimeout, hasked,
    harguments ▸ (ofArguments_groups hboth hinput htimeout).2 dashedGroups hasked⟩

end Options

end CommandLine

end Growth
