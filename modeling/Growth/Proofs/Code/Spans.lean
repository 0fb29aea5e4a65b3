import Growth.Proofs.Code.Gaps
import Growth.Proofs.Code.TokenLayout
import Growth.Proofs.Code.Written
import Growth.Proofs.Place

/-! Where the tokens of a text stand. No token overlaps the one before it, each takes up the
characters that it is written with, and between two tokens there is only what separates tokens. -/

namespace Growth.Code

/-- The characters stand between tokens, before `rest`. In `bracketed` text lines may end there.
Otherwise a line ends there only where it is `fresh`, with nothing but blanks and a comment in
it. -/
inductive Separates (bracketed : Prop) (rest : List Char) : Prop → List Char → Prop
  | nil {fresh : Prop} : Separates bracketed rest fresh []
  | blank {fresh : Prop} {c : Char} {cs : List Char} (hc : isInlineBlank c = true)
      (h : Separates bracketed rest fresh cs) : Separates bracketed rest fresh (c :: cs)
  | comment {fresh : Prop} {line cs : List Char} (hline : '\n' ∉ line)
      (hover : LineOver (cs ++ rest)) (h : Separates bracketed rest fresh cs) :
      Separates bracketed rest fresh ('#' :: (line ++ cs))
  | continued {fresh : Prop} {cs : List Char} (h : Separates bracketed rest False cs) :
      Separates bracketed rest fresh ('\\' :: '\n' :: cs)
  | lineEnd {fresh : Prop} {cs : List Char} (hends : bracketed ∨ fresh)
      (h : Separates bracketed rest fresh cs) : Separates bracketed rest fresh ('\n' :: cs)

/-- The token `t`, which comes after the tokens `front`, is written as `text`. Before it stands what
separates it from them, and before that the text up to the end of the last of them. -/
structure Located (source : String) (front : List Token) (t : Token)
    (before gap text after : List Char) : Prop where
  split : source.toList = before ++ gap ++ text ++ after
  previous : (front.getLast?.map Token.stop).getD 0 = (String.ofList before).utf8ByteSize
  place : t.place = ⟨(String.ofList (before ++ gap)).utf8ByteSize, .behind (before ++ gap)⟩
  stop : t.stop = (String.ofList (before ++ gap ++ text)).utf8ByteSize
  written : t.kind.Written text
  empty : text = [] ↔ t.kind = .indent ∨ t.kind = .dedent ∨ t.kind = .endOfFile ∨
    t.kind = .newline ∧ t.place.offset = source.utf8ByteSize
  ending : t.kind = .endOfFile → after = []
  separates : Separates (stillOpen (front.map Token.kind) ≠ []) (text ++ after)
    (before = [] ∨ before.getLast? = some '\n') gap

/-- Whether a token is a number. -/
def Kind.isNumber : Kind → Bool
  | integer _ | float _ => true
  | _ => false

/-- If the token is a number, it is the first word of `text ++ after`, with the characters `text`. -/
def Kind.Found (k : Kind) (text after : List Char) : Prop :=
  k.isNumber = true → ∃ c cs, text ++ after = c :: cs ∧ lexeme c cs = .token k text

theorem Kind.found_of_isNumber {k : Kind} (h : k.isNumber = false) (text after : List Char) :
    k.Found text after := by
  intro hk
  rw [h] at hk
  cases hk

/-- The tokens tile the text. -/
structure Tiled (source : String) (ts : List Token) : Prop where
  ordered : ts.IsChain fun t t' => t.stop ≤ t'.place.offset
  located : ∀ front t back, ts = front ++ t :: back →
    ∃ before gap text after, Located source front t before gap text after
  whole : ts.getLast?.map Token.stop = some source.utf8ByteSize

/-! ### Between tokens -/

namespace Separates

variable {bracketed fresh fresh' : Prop} {rest cs cs' : List Char}

theorem mono (h : Separates bracketed rest fresh cs) (hfresh : fresh → fresh') :
    Separates bracketed rest fresh' cs := by
  induction h generalizing fresh' with
  | nil => exact .nil
  | blank hc _ ih => exact .blank hc (ih hfresh)
  | comment hline hover _ ih => exact .comment hline hover (ih hfresh)
  | continued h _ => exact .continued h
  | lineEnd hends _ ih => exact .lineEnd (hends.imp_right hfresh) (ih hfresh)

theorem append (h : Separates bracketed (cs' ++ rest) fresh cs)
    (h' : Separates bracketed rest False cs') : Separates bracketed rest fresh (cs ++ cs') := by
  induction h with
  | nil => exact h'.mono False.elim
  | blank hc _ ih => exact .blank hc ih
  | comment hline hover _ ih =>
    rw [List.cons_append, List.append_assoc]
    exact .comment hline (by rwa [List.append_assoc]) ih
  | continued _ ih => exact .continued ih
  | lineEnd hends _ ih => exact .lineEnd hends ih

theorem of_gap (fresh : Prop) {b : Bool} (h : cs = gap b .blanks cs ++ rest) :
    Separates (b = true) rest fresh (gap b .blanks cs) := by
  induction cs using gap_induction b generalizing fresh with
  | stop cs hstop =>
    rw [hstop]
    exact .nil
  | blank c cs hc ih =>
    rw [gap_blank hc] at h ⊢
    exact .blank hc (ih _ (List.cons.inj h).2)
  | comment line cs hline hcs ih =>
    rw [gap_comment hline hcs, List.cons_append, List.append_assoc] at h
    have hrest := List.append_cancel_left (List.cons.inj h).2
    rw [gap_comment hline hcs]
    exact .comment hline (hrest ▸ hcs) (ih _ hrest)
  | continued cs ih =>
    rw [gap_continued] at h ⊢
    exact .continued (ih _ (List.cons.inj (List.cons.inj h).2).2)
  | lineEnd hb cs ih =>
    rw [gap_newline, if_pos hb] at h ⊢
    exact .lineEnd (.inl hb) (ih _ (List.cons.inj h).2)

theorem of_margin (bracketed : Prop) {width : Nat} (h : cs = (margin width false cs).1 ++ rest)
    (hfresh : fresh) : Separates bracketed rest fresh (margin width false cs).1 := by
  induction width, cs using margin_induction with
  | nil => exact .nil
  | blank width c cs hc ih =>
    rw [margin_blank hc] at h ⊢
    exact .blank hc (ih (List.cons.inj h).2)
  | comment width line cs hline hcs ih =>
    rw [margin_comment hline hcs, List.cons_append, List.append_assoc] at h
    have hrest := List.append_cancel_left (List.cons.inj h).2
    rw [margin_comment hline hcs]
    exact .comment hline (hrest ▸ hcs) (ih hrest)
  | newline width cs ih =>
    rw [margin_newline] at h ⊢
    exact .lineEnd (.inr hfresh) (ih (List.cons.inj h).2)
  | token width c cs hc hh hblank =>
    rw [margin_of_ne hc hh hblank]
    exact .nil

end Separates

/-! ### From one token to the next -/

namespace Scanner

/-- Pending tokens stand where the scanner stands, and the end of the text is reported there. -/
structure Placed (s : Scanner) : Prop where
  pending : ∀ t ∈ s.pending, t = s.emptyToken .dedent
  finished : s.finished = true → s.rest = []

/-- From `s` to `s'` the token `t` is passed, which is written as `text` behind `gap`. -/
structure Moves (s : Scanner) (t : Token) (s' : Scanner) (gap text : List Char) : Prop where
  rest : s.rest = gap ++ (text ++ s'.rest)
  place : t.place = s.place.after gap
  after : s'.place = s.place.after (gap ++ text)
  stop : t.stop = s'.place.offset
  written : t.kind.Written text
  found : t.kind.Found text s'.rest
  empty : text = [] ↔ t.kind = .indent ∨ t.kind = .dedent ∨ t.kind = .endOfFile ∨
    t.kind = .newline ∧ text ++ s'.rest = []
  ending : t.kind = .endOfFile → s'.rest = []
  separates : Separates (s.brackets ≠ []) (text ++ s'.rest) (s.atLineStart = true) gap
  placed : s'.Placed
  lineStart : s'.atLineStart = true → text = ['\n']

/-- The token of a step, if it gives one, is passed. -/
def Moving (s : Scanner) (step : Except ScanError Token × Scanner) : Prop :=
  ∀ t, step.1 = .ok t → ∃ gap text, s.Moves t step.2 gap text

variable {s s' : Scanner} {t : Token} {bs : List Bracket} {w : List Nat} {rest : List Char}

theorem Moving.of_error (e : ScanError) : s.Moving (.error e, s') := by
  rintro _ ⟨⟩

/-- A token without characters stands where the scanner stands. -/
theorem Moves.of_empty {k : Kind}
    (hk : k = .indent ∨ k = .dedent ∨ (k = .endOfFile ∨ k = .newline) ∧ s.rest = [])
    (hrest : s'.rest = s.rest) (hplace : s'.place = s.place) (hplaced : s'.Placed)
    (hstart : s'.atLineStart = false) :
    s.Moves (s.emptyToken k) s' [] [] where
  rest := hrest.symm
  place := rfl
  after := hplace
  stop := by rw [hplace]; rfl
  written := by
    obtain rfl | rfl | ⟨rfl | rfl, -⟩ := hk
    · exact rfl
    · exact rfl
    · exact rfl
    · exact .inr rfl
  found := by
    refine Kind.found_of_isNumber ?_ _ _
    obtain rfl | rfl | ⟨rfl | rfl, -⟩ := hk <;> rfl
  empty := by
    refine iff_of_true rfl ?_
    rw [List.nil_append, hrest]
    exact hk.imp_right fun hk => hk.imp_right fun hk => hk.1.imp_right fun h => ⟨h, hk.2⟩
  ending := by
    rintro rfl
    rw [hrest]
    simpa using hk
  separates := .nil
  placed := hplaced
  lineStart := by simp [hstart]

/-- Before the token stands what separates it from the one before. -/
theorem Moves.behind {chars gap text : List Char} {a : Scanner} (h : a.Moves t s' gap text)
    (hrest : s.rest = chars ++ a.rest) (hplace : a.place = s.place.after chars)
    (hbrackets : a.brackets = s.brackets) (hstart : a.atLineStart = false)
    (hseparates : Separates (s.brackets ≠ []) a.rest (s.atLineStart = true) chars) :
    s.Moves t s' (chars ++ gap) text where
  rest := by rw [hrest, h.rest, List.append_assoc]
  place := by rw [h.place, hplace, Place.after_append]
  after := by rw [h.after, hplace, List.append_assoc, ← Place.after_append]
  stop := h.stop
  written := h.written
  found := h.found
  empty := h.empty
  ending := h.ending
  separates := by
    rw [h.rest] at hseparates
    refine hseparates.append ?_
    rw [← hbrackets]
    exact h.separates.mono (by simp [hstart])
  placed := h.placed
  lineStart := h.lineStart

theorem Moving.behind {chars : List Char} {a : Scanner} {step : Except ScanError Token × Scanner}
    (h : a.Moving step) (hrest : s.rest = chars ++ a.rest) (hplace : a.place = s.place.after chars)
    (hbrackets : a.brackets = s.brackets) (hstart : a.atLineStart = false)
    (hseparates : Separates (s.brackets ≠ []) a.rest (s.atLineStart = true) chars) :
    s.Moving step := by
  intro t ht
  obtain ⟨gap, text, hmoves⟩ := h t ht
  exact ⟨chars ++ gap, text, hmoves.behind hrest hplace hbrackets hstart hseparates⟩

/-- A token that takes up characters, after which other brackets may be open. -/
theorem moving_take (h : s.Inside bs w rest) (brackets : List Bracket) {k : Kind}
    {chars : List Char} (hchars : chars <+: s.rest) (hne : chars ≠ []) (hk : k.Written chars)
    (hfound : k.Found chars (s.rest.drop chars.length))
    (hlayout : k.isLayout = false) (hend : k ≠ .endOfFile) :
    s.Moving ({ s with brackets }.take k chars) := by
  rintro _ ⟨⟩
  refine ⟨[], chars, List.prefix_append_drop hchars, rfl, rfl, rfl, hk, hfound,
    iff_of_false hne ?_, fun hk => absurd hk hend, .nil, ?_, ?_⟩
  · rintro (rfl | rfl | rfl | ⟨rfl, -⟩)
    · cases hlayout
    · cases hlayout
    · exact hend rfl
    · cases hlayout
  · exact ⟨by simp [take, skip, h.pending], by simp [take, skip, h.finished]⟩
  · simp [take, skip, h.atLineStart]

theorem moving_takeSign (h : s.Inside bs w rest) {m : Mark} {chars : List Char}
    (hchars : chars <+: s.rest) (hne : chars ≠ []) (hk : (Kind.mark m).Written chars) :
    s.Moving (s.takeSign m chars) := by
  have htake (brackets : List Bracket) : s.Moving ({ s with brackets }.take (.mark m) chars) :=
    moving_take h brackets hchars hne hk (Kind.found_of_isNumber rfl _ _) rfl nofun
  unfold takeSign
  split
  · exact htake _
  · dsimp only
    split
    · exact htake _
    · exact .of_error _
  · exact htake s.brackets

theorem moving_finish (h : s.Inside bs w []) : s.Moving s.finish := by
  have hpending (p : List Token) (hp : ∀ t ∈ p, t = s.emptyToken .dedent) (lineHasTokens : Bool) :
      Placed { s with pending := p, widths := [], finished := true, lineHasTokens } :=
    ⟨hp, fun _ => h.rest⟩
  have hclose : ∀ t ∈ (s.close s.widths).pending, t = s.emptyToken .dedent := by
    intro t ht
    obtain ⟨_, -, rfl⟩ := List.mem_map.mp ht
    rfl
  unfold finish
  dsimp only
  split
  · rintro _ ⟨⟩
    exact ⟨[], [], .of_empty (.inr (.inr ⟨.inr rfl, h.rest⟩)) rfl rfl (hpending _ hclose false)
      h.atLineStart⟩
  unfold deliver
  dsimp only
  split
  · rename_i t pending heq
    rw [heq, List.forall_mem_cons] at hclose
    obtain ⟨rfl, hclose⟩ := hclose
    rintro _ ⟨⟩
    exact ⟨[], [], .of_empty (.inr (.inl rfl)) rfl rfl (hpending _ hclose _) h.atLineStart⟩
  · rename_i heq
    rintro _ ⟨⟩
    refine ⟨[], [], .of_empty (.inr (.inr ⟨.inl rfl, h.rest⟩)) rfl rfl (hpending _ ?_ _)
      h.atLineStart⟩
    rw [heq]
    exact List.forall_mem_nil _

theorem moving_inLine (h : s.Inside bs w rest) : s.Moving s.inLine := by
  have hrest := List.prefix_append_drop (gap_isPrefix (!s.brackets.isEmpty) s.rest)
  have hseparates := Separates.of_gap (s.atLineStart = true) hrest
  rw [show ((!s.brackets.isEmpty) = true) = (s.brackets ≠ []) by simp] at hseparates
  have hskip : (s.skip (gap (!s.brackets.isEmpty) .blanks s.rest)).Inside bs w _ :=
    ⟨rfl, h.brackets, h.widths, h.pending, h.atLineStart, h.finished⟩
  have hbehind {step : Except ScanError Token × Scanner}
      (hstep : (s.skip (gap (!s.brackets.isEmpty) .blanks s.rest)).Moving step) :
      s.Moving step := by
    exact hstep.behind hrest rfl rfl hskip.atLineStart hseparates
  unfold inLine
  generalize s.skip (gap (!s.brackets.isEmpty) .blanks s.rest) = a at hskip hbehind
  refine hbehind ?_
  dsimp only
  split
  · rename_i hnil
    exact moving_finish ⟨hnil, hskip.brackets, hskip.widths, hskip.pending, hskip.atLineStart,
      hskip.finished⟩
  rename_i c cs hcs
  split
  · rename_i hc
    obtain rfl := beq_iff_eq.mp hc
    rintro _ ⟨⟩
    refine ⟨[], ['\n'], ?_, rfl, rfl, rfl, .inl rfl, Kind.found_of_isNumber rfl _ _, by simp,
      by rintro ⟨⟩, .nil, ?_, fun _ => rfl⟩
    · simp [skip, hcs]
    · exact ⟨by simp [skip, hskip.pending], by simp [skip, hskip.finished]⟩
  split
  · rename_i hlexeme
    obtain ⟨hchars, hwritten⟩ := written_of_lexeme hlexeme
    obtain ⟨hlayout, hend, -⟩ := plain_of_lexeme hlexeme
    rw [← hcs] at hchars
    refine moving_take hskip a.brackets hchars (lexeme_token_ne_nil hlexeme) hwritten
      (fun _ => ⟨c, cs, ?_, hlexeme⟩) hlayout hend
    rw [← List.prefix_append_drop hchars, hcs]
  · rename_i hlexeme
    obtain ⟨hchars, hwritten⟩ := written_of_sign hlexeme
    exact moving_takeSign hskip (hcs ▸ hchars) (lexeme_sign_ne_nil hlexeme) hwritten
  · exact .of_error _
  · exact .of_error _
  · exact .of_error _

theorem moving_indented (h : s.Inside bs w rest) (width : Nat) : s.Moving (s.indented width) := by
  have hplaced (widths : List Nat) (p : List Token) (hp : ∀ t ∈ p, t = s.emptyToken .dedent) :
      Placed { s with widths, pending := p } :=
    ⟨hp, by simp [h.finished]⟩
  unfold indented
  split
  · rintro _ ⟨⟩
    exact ⟨[], [], .of_empty (.inl rfl) rfl rfl (hplaced _ _ (by simp [h.pending])) h.atLineStart⟩
  dsimp only
  generalize s.widths.span (width < ·) = parts
  obtain ⟨closed, left⟩ := parts
  have hclose : ∀ t ∈ (s.close closed).pending, t = s.emptyToken .dedent := by
    intro t ht
    obtain ⟨_, -, rfl⟩ := List.mem_map.mp ht
    rfl
  dsimp only
  split
  · unfold deliver
    dsimp only
    split
    · rename_i t pending heq
      rw [heq, List.forall_mem_cons] at hclose
      obtain ⟨rfl, hclose⟩ := hclose
      rintro _ ⟨⟩
      exact ⟨[], [], .of_empty (.inr (.inl rfl)) rfl rfl (hplaced _ _ hclose) h.atLineStart⟩
    · rename_i heq
      have hin : Inside { s.close closed with widths := left } bs left rest :=
        ⟨h.rest, h.brackets, rfl, heq, h.atLineStart, h.finished⟩
      exact (moving_inLine hin).behind rfl rfl rfl h.atLineStart .nil
  · exact .of_error _

theorem moving_next (h : s.Orderly) (hs : s.Placed) : s.Moving s.next := by
  unfold next deliver
  split
  · rename_i t pending hpending
    have hstart : s.atLineStart = false := by
      by_contra hstart
      simpa [hpending] using (h.lineStart (by simpa using hstart)).2.1
    have hplaced := hs.pending
    rw [hpending, List.forall_mem_cons] at hplaced
    obtain ⟨rfl, hplaced⟩ := hplaced
    rintro _ ⟨⟩
    exact ⟨[], [], .of_empty (.inr (.inl rfl)) rfl rfl ⟨hplaced, hs.finished⟩ hstart⟩
  rename_i hpending
  dsimp only
  split
  · rename_i hfinished
    have hstart : s.atLineStart = false := by
      by_contra hstart
      simpa [hfinished] using (h.lineStart (by simpa using hstart)).2.2
    rintro _ ⟨⟩
    exact ⟨[], [], .of_empty (.inr (.inr ⟨.inl rfl, hs.finished hfinished⟩)) rfl rfl hs hstart⟩
  rename_i hfinished
  simp only [Bool.not_eq_true] at hfinished
  split
  · rename_i hstart
    have hrest := List.prefix_append_drop (margin_isPrefix 0 s.rest)
    have hseparates := Separates.of_margin (s.brackets ≠ []) hrest hstart
    have hin : Inside { s.skip (margin 0 false s.rest).1 with atLineStart := false } s.brackets
        s.widths _ := ⟨rfl, rfl, rfl, hpending, rfl, hfinished⟩
    split
    · exact (moving_inLine hin).behind hrest rfl rfl rfl hseparates
    · exact (moving_indented hin _).behind hrest rfl rfl rfl hseparates
  · rename_i hstart
    exact moving_inLine ⟨rfl, rfl, rfl, hpending, by simpa using hstart, hfinished⟩

/-! ### From the beginning of a text -/

/-- The scanner of a text after the tokens `earlier`, with the text up to it `passed`. -/
structure Stood (source : String) (earlier : List Token) (s : Scanner) (passed : List Char) :
    Prop where
  orderly : s.Orderly
  placed : s.Placed
  split : source.toList = passed ++ s.rest
  place : s.place = Place.start.after passed
  fresh : s.atLineStart = true → passed = [] ∨ passed.getLast? = some '\n'
  brackets : s.brackets = stillOpen (earlier.map Token.kind)
  previous : (earlier.getLast?.map Token.stop).getD 0 = (String.ofList passed).utf8ByteSize

variable {source : String} {earlier ts : List Token} {passed : List Char}

theorem stood_ofText (source : String) : Stood source [] (ofText source) [] where
  orderly := orderly_ofText source
  placed := ⟨List.forall_mem_nil _, nofun⟩
  split := rfl
  place := rfl
  fresh := fun _ => .inl rfl
  brackets := rfl
  previous := rfl

theorem eq_nil_iff_utf8ByteSize {cs cs' : List Char} (h : source.toList = cs ++ cs') :
    cs' = [] ↔ (String.ofList cs).utf8ByteSize = source.utf8ByteSize := by
  have hsize : source.utf8ByteSize =
      (String.ofList cs).utf8ByteSize + (String.ofList cs').utf8ByteSize := by
    rw [← String.utf8ByteSize_append, ← String.ofList_append, ← h, String.ofList_toList]
  rw [hsize, Nat.left_eq_add, String.utf8ByteSize_eq_zero_iff, ← String.ofList_nil,
    String.ofList_inj]

/-- The next token stands behind what is passed. -/
theorem Stood.next (h : Stood source earlier s passed) (hnext : s.next = (.ok t, s')) :
    ∃ gap text, Located source earlier t passed gap text s'.rest ∧ t.kind.Found text s'.rest ∧
      Stood source (earlier ++ [t]) s' (passed ++ gap ++ text) := by
  obtain ⟨gap, text, hmoves⟩ := moving_next h.orderly h.placed t (by rw [hnext])
  rw [hnext] at hmoves
  have hpasses := passes_of_next h.orderly hnext
  have hsplit : source.toList = passed ++ gap ++ text ++ s'.rest := by
    rw [h.split, hmoves.rest]
    simp only [List.append_assoc]
  have hplace : t.place = Place.start.after (passed ++ gap) := by
    rw [hmoves.place, h.place, Place.after_append]
  have hafter : s'.place = Place.start.after (passed ++ gap ++ text) := by
    rw [hmoves.after, h.place, List.append_assoc, Place.after_append _ passed]
  have hstop : t.stop = (String.ofList (passed ++ gap ++ text)).utf8ByteSize := by
    rw [hmoves.stop, hafter, Place.start_after]
  refine ⟨gap, text, ⟨hsplit, h.previous, ?_, hstop, hmoves.written, ?_, hmoves.ending,
    ?_⟩, hmoves.found, ?_⟩
  · rw [hplace, Place.start_after]
  · rw [List.append_assoc] at hsplit
    rw [hmoves.empty, hplace, Place.start_after, eq_nil_iff_utf8ByteSize hsplit]
  · rw [← h.brackets]
    exact hmoves.separates.mono h.fresh
  · refine ⟨hpasses.orderly, hmoves.placed, hsplit, hafter, fun hstart => ?_, ?_, ?_⟩
    · rw [hmoves.lineStart hstart]
      exact .inr (by simp)
    · rw [hpasses.brackets, h.brackets, List.map_append, stillOpen_append]
      rfl
    · simp [hstop]

theorem Stood.found (h : Stood source earlier s passed) (htokens : s.tokens = .ok ts)
    {front back : List Token} (hts : ts = front ++ t :: back) :
    ∃ before gap text after, Located source (earlier ++ front) t before gap text after ∧
      t.kind.Found text after := by
  induction front generalizing s earlier passed ts with
  | nil =>
    obtain ⟨t', s', hnext, hfirst⟩ := tokens_eq_ok htokens
    obtain rfl : t = t' := by
      obtain ⟨-, rfl⟩ | ⟨-, ts', -, rfl⟩ := hfirst <;> exact (List.cons.inj hts).1.symm
    obtain ⟨gap, text, hlocated, hfound, -⟩ := h.next hnext
    rw [List.append_nil]
    exact ⟨_, _, _, _, hlocated, hfound⟩
  | cons t' front ih =>
    obtain ⟨_, s', hnext, ⟨-, rfl⟩ | ⟨-, ts', hts', rfl⟩⟩ := tokens_eq_ok htokens
    · exact absurd (List.cons.inj hts).2.symm (by simp)
    · obtain ⟨rfl, hmore⟩ := List.cons.inj hts
      obtain ⟨gap, text, -, -, hstood⟩ := h.next hnext
      rw [List.append_cons]
      exact ih hstood hts' hmore

theorem Stood.located (h : Stood source earlier s passed) (htokens : s.tokens = .ok ts)
    {front back : List Token} (hts : ts = front ++ t :: back) :
    ∃ before gap text after, Located source (earlier ++ front) t before gap text after := by
  obtain ⟨before, gap, text, after, hlocated, -⟩ := h.found htokens hts
  exact ⟨before, gap, text, after, hlocated⟩

end Scanner

variable {source : String} {ts : List Token}

/-- The tokens of a text tile it. -/
theorem tiled_of_tokens (h : tokens source = .ok ts) : Tiled source ts where
  ordered := by
    rw [List.isChain_iff_forall_rel_of_append_cons_cons]
    intro t t' front back hts
    rw [List.append_cons] at hts
    obtain ⟨before, gap, text, after, hlocated⟩ := (Scanner.stood_ofText source).located h hts
    have hprevious := hlocated.previous
    rw [List.nil_append, List.getLast?_concat] at hprevious
    change t.stop = _ at hprevious
    rw [hprevious, hlocated.place, String.ofList_append, String.utf8ByteSize_append]
    exact Nat.le_add_right _ _
  located := fun front t back hts => (Scanner.stood_ofText source).located h hts
  whole := by
    obtain ⟨front, hfront, -⟩ := Scanner.ends_of_tokens h
    obtain ⟨init, last, rfl, -, hlast⟩ := List.map_eq_append_iff.mp hfront
    obtain ⟨t, rfl, ht⟩ := List.map_eq_singleton_iff.mp hlast
    obtain ⟨before, gap, text, after, hlocated⟩ := (Scanner.stood_ofText source).located h rfl
    have hsplit := hlocated.split
    rw [hlocated.ending ht, List.append_nil] at hsplit
    rw [List.getLast?_concat, Option.map_some, hlocated.stop, ← hsplit, String.ofList_toList]

/-- The tokens of a block with comments, a string of three bytes, brackets over two lines and a last
line that goes on. -/
def commentedTokens : List Token :=
  [⟨.identifier "é", ⟨0, ⟨1, 0⟩⟩, 2⟩, ⟨.mark .colon, ⟨2, ⟨1, 1⟩⟩, 3⟩, ⟨.newline, ⟨8, ⟨1, 6⟩⟩, 9⟩,
    ⟨.indent, ⟨12, ⟨3, 2⟩⟩, 12⟩, ⟨.string "€", ⟨12, ⟨3, 2⟩⟩, 17⟩,
    ⟨.mark (.opening .square), ⟨18, ⟨3, 6⟩⟩, 19⟩, ⟨.integer "1_0", ⟨24, ⟨4, 1⟩⟩, 27⟩,
    ⟨.mark (.closing .square), ⟨27, ⟨4, 4⟩⟩, 28⟩, ⟨.newline, ⟨30, ⟨5, 0⟩⟩, 30⟩,
    ⟨.dedent, ⟨30, ⟨5, 0⟩⟩, 30⟩, ⟨.endOfFile, ⟨30, ⟨5, 0⟩⟩, 30⟩]

set_option maxRecDepth 4000 in
theorem tiled_of_tokens_commented :
    tokens "é: # ü\n\n \t'€' [# x\n 1_0]\\\n" = .ok commentedTokens ∧
      Tiled "é: # ü\n\n \t'€' [# x\n 1_0]\\\n" commentedTokens := by
  have htokens : tokens "é: # ü\n\n \t'€' [# x\n 1_0]\\\n" = .ok commentedTokens := by cbv
  exact ⟨htokens, tiled_of_tokens htokens⟩

end Growth.Code
