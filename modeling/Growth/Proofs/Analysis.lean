import Growth.Analysis
import Growth.Proofs.Profile
import Growth.Proofs.Rendition.Program

/-! Pseudocode is refused exactly for words out of order, and before anything is run. What is not
refused has code, and is analysed as its code is, with two runs if the code is a program. -/

namespace Growth

open Code Pseudo

/-- What is read without errors has code. -/
theorem Pseudo.Rendition.exists_code {source : String}
    (h : ∀ d ∈ (ofText source).diagnostics, d.problem.isLexical = true) :
    ∃ code, (ofText source).code = some code :=
  ⟨_, code_eq_some_iff.mpr ⟨(derived_of_isLexical h).1.nonempty, rfl⟩⟩

namespace Analysis

section OfCode

variable {σ : Type} (runner : Runner σ) (s : σ) {code : String}

/-- Code that is no program is refused before anything is run. -/
theorem course_ofCode_error {e : BuildError} (h : Module.ofText code = .error e) :
    (ofCode code).course runner s = ⟨.error (.build e), [], s⟩ := by
  rw [ofCode, h]
  rfl

/-- The analysis of a program makes two runs, and comes to an end whatever they show. -/
theorem course_ofCode_ok {m : Module} (h : Module.ofText code = .ok m) : ∃ first second,
    ((ofCode code).course runner s).log = [(.recording m, first), (.plain m, second)] ∧
    ((ofCode code).course runner s).value =
      let f := Features.ofModule m second.abnormal first.repeated
      .ok ⟨code, [], f, Order.classify m f⟩ := by
  obtain ⟨first, second, hlog, hvalue⟩ := Extractor.course_findProfile runner s m
  refine ⟨first, second, ?_⟩
  rw [ofCode, h]
  dsimp only
  rw [Trial.course_map]
  exact ⟨hlog, congrArg (fun p => Except.ok (Analysis.mk code [] p)) hvalue⟩

/-- The analysis of code does not refuse it as pseudocode. -/
theorem value_ofCode_ne (code : String) (ds : List Diagnostic) :
    ((ofCode code).course runner s).value ≠ .error (.notRendered ds) := by
  cases h : Module.ofText code with
  | error e => simp [course_ofCode_error runner s h]
  | ok m =>
    obtain ⟨first, second, -, hvalue⟩ := course_ofCode_ok runner s h
    simp [hvalue]

end OfCode

section OfText

variable {σ : Type} (runner : Runner σ) (s : σ) {source : String}

/-- With an error in the order of its words pseudocode is refused before anything is run. -/
theorem course_ofText_refused
    (h : ∃ d ∈ (Rendition.ofText source).diagnostics, d.problem.isLexical = false) :
    (ofText source).course runner s =
      ⟨.error (.notRendered (Rendition.ofText source).diagnostics), [], s⟩ := by
  have hall : ((Rendition.ofText source).diagnostics.all fun d => d.problem.isLexical) = false := by
    simpa using h
  unfold ofText
  dsimp only
  rw [hall]
  split <;> rfl

/-- Without such an error pseudocode is analysed as its code is. -/
theorem course_ofText_analysed
    (h : ∀ d ∈ (Rendition.ofText source).diagnostics, d.problem.isLexical = true) :
    ∃ code, (Rendition.ofText source).code = some code ∧
      (ofText source).course runner s =
        let c := (ofCode code).course runner s
        ⟨c.value.map fun analysis =>
            { analysis with diagnostics := (Rendition.ofText source).diagnostics },
          c.log, c.state⟩ := by
  obtain ⟨code, hcode⟩ := Rendition.exists_code h
  refine ⟨code, hcode, ?_⟩
  unfold ofText
  dsimp only
  rw [hcode, List.all_eq_true.mpr h]
  exact Trial.course_map runner s _ _

/-- Pseudocode is refused as such exactly for an error in the order of its words. -/
theorem refused_iff (source : String) :
    (∃ ds, ((ofText source).course runner s).value = .error (.notRendered ds)) ↔
      ∃ d ∈ (Rendition.ofText source).diagnostics, d.problem.isLexical = false := by
  refine ⟨?_, fun h => ⟨_, congrArg Course.value (course_ofText_refused runner s h)⟩⟩
  rintro ⟨ds, hds⟩
  by_contra hnot
  have hall : ∀ d ∈ (Rendition.ofText source).diagnostics, d.problem.isLexical = true := by
    simpa using hnot
  obtain ⟨code, -, hcourse⟩ := course_ofText_analysed runner s hall
  rw [hcourse] at hds
  dsimp only at hds
  -- What `ofCode` refuses is refused for its code, and putting in diagnostics refuses nothing.
  refine value_ofCode_ne runner s code ds ?_
  cases hvalue : ((ofCode code).course runner s).value with
  | error e => rwa [hvalue] at hds
  | ok analysis =>
    rw [hvalue] at hds
    cases hds

end OfText

/-- Pseudocode is refused exactly for an error in the order of its words, with all that is wrong
with it and before anything is run. Otherwise it has code, and is analysed as the code is. Code that
is no program is refused before anything is run; of a program the one that records is run, and then
the program itself. -/
theorem course_ofText {σ : Type} (runner : Runner σ) (s : σ) (source : String) :
    let t := Rendition.ofText source
    let c := (ofText source).course runner s
    ((∃ ds, c.value = .error (.notRendered ds)) ↔
      ∃ d ∈ t.diagnostics, d.problem.isLexical = false) ∧
    (∀ ds, c.value = .error (.notRendered ds) → ds = t.diagnostics ∧ c.log = [] ∧ c.state = s) ∧
    ((∀ ds, c.value ≠ .error (.notRendered ds)) →
      (∀ d ∈ t.diagnostics, d.problem.isLexical = true) ∧ ∃ code, t.code = some code ∧
        c = let c' := (ofCode code).course runner s
          ⟨c'.value.map fun analysis => { analysis with diagnostics := t.diagnostics },
            c'.log, c'.state⟩) ∧
    ∀ code, let c' := (ofCode code).course runner s
      (∀ e, Module.ofText code = .error e → c' = ⟨.error (.build e), [], s⟩) ∧
      ∀ m, Module.ofText code = .ok m → c'.requests = [.recording m, .plain m] ∧
        ∃ profile, c'.value = .ok ⟨code, [], profile⟩ := by
  dsimp only
  have hiff := refused_iff runner s source
  refine ⟨hiff, fun ds hds => ?_, fun hne => ?_, fun code => ⟨fun e he => ?_, fun m hm => ?_⟩⟩
  · have hcourse := course_ofText_refused runner s (hiff.mp ⟨ds, hds⟩)
    rw [hcourse] at hds
    cases hds
    exact ⟨rfl, congrArg Course.log hcourse, congrArg Course.state hcourse⟩
  · have hall : ∀ d ∈ (Rendition.ofText source).diagnostics, d.problem.isLexical = true := by
      simpa using mt hiff.mpr (not_exists.mpr hne)
    exact ⟨hall, course_ofText_analysed runner s hall⟩
  · exact course_ofCode_error runner s he
  · obtain ⟨first, second, hlog, hvalue⟩ := course_ofCode_ok runner s hm
    exact ⟨congrArg (List.map Prod.fst) hlog, _, hvalue⟩

end Analysis

end Growth
