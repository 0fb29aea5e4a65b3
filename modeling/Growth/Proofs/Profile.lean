import Growth.Proofs.Trial

/-! The features and the order of growth of a program are found once, with two runs, and each of the
two runs reaches its own feature only. -/

namespace Growth

open Code

/-! ### What the order looks at -/

/-- Of the features of a program its order of growth depends on three. -/
theorem Order.classify_congr {m : Module} {f f' : Features}
    (habnormal : f.abnormalEnd = f'.abnormalEnd) (hnesting : f.nesting = f'.nesting)
    (hcollection : f.collectionLoop = f'.collectionLoop) : classify m f = classify m f' := by
  have hunbounded : isUnbounded f = isUnbounded f' := by
    funext s
    unfold isUnbounded
    rw [hcollection]
  have hraised (o : Order) (loops : List Statement) : o.raised f loops = o.raised f' loops := by
    unfold raised
    rw [hnesting, hunbounded]
  unfold classify
  rw [habnormal]
  simp only [hraised]

namespace Extractor

/-! ### Calls of an extractor -/

/-- What an extractor is asked for. -/
inductive Query where
  | features | order | profile

/-- A test of a program that makes a run of its own. -/
inductive Test where
  | repeatedValue (m : Module)
  | abnormalEnd (m : Module)

/-- A call: of the extractor itself, or of a test. -/
inductive Call where
  | own (query : Query)
  | test (t : Test)

/-- What a call gives. -/
inductive Answer where
  | features (f : Features)
  | order (o : Order)
  | profile (p : Profile)
  | shown (n : Nat)

/-- The answer for a program with those features. -/
def Query.answer (m : Module) (f : Features) : Query → Answer
  | features => .features f
  | order => .order (Order.classify m f)
  | profile => .profile ⟨f, Order.classify m f⟩

namespace Test

def trial : Test → Trial Nat
  | repeatedValue m => Trial.repeatedValue m
  | abnormalEnd m => Trial.abnormalEnd m

def request : Test → Request
  | repeatedValue m => .recording m
  | abnormalEnd m => .plain m

/-- What a reply to that run shows. -/
def shown : Test → Reply → Nat
  | repeatedValue _, reply => reply.repeated
  | abnormalEnd _, reply => reply.abnormal

theorem trial_eq (t : Test) : t.trial = .run t.request fun reply => .done (t.shown reply) := by
  cases t with
  | repeatedValue m => exact Trial.repeatedValue_eq m
  | abnormalEnd m => exact Trial.abnormalEnd_eq m

end Test

/-- Answers a call. A test leaves the extractor as it is. -/
def respond (e : Extractor) : Call → Trial (Answer × Extractor)
  | .own .features => e.findFeatures.map fun (f, e) => (.features f, e)
  | .own .order => e.findOrder.map fun (o, e) => (.order o, e)
  | .own .profile => e.findProfile.map fun (p, e) => (.profile p, e)
  | .test t => t.trial.map fun n => (.shown n, e)

/-- An extractor that has found the features of its program, and has kept nothing else. -/
structure Knows (m : Module) (f : Features) (e : Extractor) : Prop where
  program : e.program = m
  features : e.features = some f
  order : e.order = none ∨ e.order = some (Order.classify m f)

variable {m : Module} {f : Features} {e : Extractor}

/-- Once the features are known no call of the extractor makes a run. -/
theorem Knows.respond (h : Knows m f e) (query : Query) :
    ∃ e', e.respond (.own query) = .done (query.answer m f, e') ∧ Knows m f e' := by
  obtain ⟨program, features, order⟩ := e
  obtain ⟨rfl, rfl, ho⟩ := h
  dsimp only at ho
  cases query with
  | features => exact ⟨_, rfl, rfl, rfl, ho⟩
  | order => rcases ho with rfl | rfl <;> exact ⟨_, rfl, rfl, rfl, .inr rfl⟩
  | profile => rcases ho with rfl | rfl <;> exact ⟨_, rfl, rfl, rfl, .inr rfl⟩

/-- As long as nothing is known the features are found with the two runs, and are kept. -/
theorem findFeatures_ofModule (m : Module) : (ofModule m).findFeatures =
    .run (.recording m) fun first => .run (.plain m) fun second =>
      let f := Features.ofModule m second.abnormal first.repeated
      .done (f, ⟨m, some f, none⟩) := by
  unfold findFeatures ofModule
  dsimp only
  rw [Trial.features_eq]
  rfl

theorem findOrder_ofModule (m : Module) : (ofModule m).findOrder =
    .run (.recording m) fun first => .run (.plain m) fun second =>
      let f := Features.ofModule m second.abnormal first.repeated
      let o := Order.classify m f
      .done (o, ⟨m, some f, some o⟩) := by
  have hunknown : (ofModule m).order = none := rfl
  unfold findOrder
  rw [hunknown, findFeatures_ofModule]
  rfl

/-- The profile is what is kept when the order of growth has been found. -/
theorem findProfile_ofModule (m : Module) : (ofModule m).findProfile =
    .run (.recording m) fun first => .run (.plain m) fun second =>
      let f := Features.ofModule m second.abnormal first.repeated
      let o := Order.classify m f
      .done (⟨f, o⟩, ⟨m, some f, some o⟩) := by
  rw [findProfile, findOrder_ofModule]
  rfl

/-- As long as nothing is known a call of the extractor makes the two runs, and then knows the
features. -/
theorem respond_ofModule (m : Module) (query : Query) : ∃ e' : Features → Extractor,
    (∀ f, Knows m f (e' f)) ∧ (ofModule m).respond (.own query) =
      .run (.recording m) fun first => .run (.plain m) fun second =>
        let f := Features.ofModule m second.abnormal first.repeated
        .done (query.answer m f, e' f) := by
  cases query with
  | features =>
    refine ⟨fun f => ⟨m, some f, none⟩, fun f => ⟨rfl, rfl, .inl rfl⟩, ?_⟩
    rw [respond, findFeatures_ofModule]
    rfl
  | order =>
    refine ⟨fun f => ⟨m, some f, some (Order.classify m f)⟩, fun f => ⟨rfl, rfl, .inr rfl⟩, ?_⟩
    rw [respond, findOrder_ofModule]
    rfl
  | profile =>
    refine ⟨fun f => ⟨m, some f, some (Order.classify m f)⟩, fun f => ⟨rfl, rfl, .inr rfl⟩, ?_⟩
    rw [respond, findProfile_ofModule]
    rfl

/-! ### Sessions -/

/-- A call that was made, its answer, and the runs made for it. -/
structure Event where
  call : Call
  answer : Answer
  log : List (Request × Reply)

/-- Calls that are made one after the other, with one runner. -/
def session {σ : Type} (runner : Runner σ) (s : σ) (e : Extractor) : List Call → List Event
  | [] => []
  | call :: calls =>
    let c := (e.respond call).course runner s
    ⟨call, c.value.1, c.log⟩ :: session runner c.state c.value.2 calls

namespace Event

def IsTest (event : Event) : Prop :=
  ∃ t reply, event = ⟨.test t, .shown (t.shown reply), [(t.request, reply)]⟩

/-- The extractor has made the two runs, and has answered with the features that they showed. -/
def Finds (m : Module) (f : Features) (event : Event) : Prop :=
  ∃ query first second, f = .ofModule m second.abnormal first.repeated ∧
    event = ⟨.own query, query.answer m f, [(.recording m, first), (.plain m, second)]⟩

/-- The extractor has answered for a program with those features, without a run. -/
def Recalls (m : Module) (f : Features) (event : Event) : Prop :=
  ∃ query, event = ⟨.own query, query.answer m f, []⟩

end Event

section Session

variable {σ : Type} (runner : Runner σ)

theorem session_test (s : σ) (e : Extractor) (t : Test) (calls : List Call) :
    ∃ event s', event.IsTest ∧
      session runner s e (.test t :: calls) = event :: session runner s' e calls := by
  refine ⟨_, (runner s t.request).2, ⟨t, (runner s t.request).1, rfl⟩, ?_⟩
  rw [session, respond, t.trial_eq]
  rfl

/-- The first call of a new extractor makes the two runs. -/
theorem session_first (s : σ) (m : Module) (query : Query) (calls : List Call) :
    ∃ f e event s', event.Finds m f ∧ Knows m f e ∧
      session runner s (ofModule m) (.own query :: calls) = event :: session runner s' e calls := by
  obtain ⟨e, he, hrespond⟩ := respond_ofModule m query
  let first := runner s (.recording m)
  let second := runner first.2 (.plain m)
  refine ⟨.ofModule m second.1.abnormal first.1.repeated, _, _, second.2,
    ⟨query, first.1, second.1, rfl, rfl⟩, he _, ?_⟩
  rw [session, hrespond]
  rfl

/-- While the features are known, calls of the extractor make no run. -/
theorem Knows.session (h : Knows m f e) (s : σ) (calls : List Call) :
    ∀ event ∈ session runner s e calls, event.Recalls m f ∨ event.IsTest := by
  induction calls generalizing s e with
  | nil => simp [Extractor.session]
  | cons call calls ih =>
    cases call with
    | own query =>
      obtain ⟨e', hrespond, he'⟩ := h.respond query
      rw [Extractor.session, hrespond, List.forall_mem_cons]
      exact ⟨.inl ⟨query, rfl⟩, ih he' s⟩
    | test t =>
      obtain ⟨event, s', htest, hsession⟩ := session_test runner s e t calls
      rw [hsession, List.forall_mem_cons]
      exact ⟨.inr htest, ih h s'⟩

theorem map_call_session (s : σ) (e : Extractor) (calls : List Call) :
    (session runner s e calls).map Event.call = calls := by
  induction calls generalizing s e with
  | nil => rfl
  | cons call calls ih =>
    rw [session, List.map_cons]
    exact congrArg _ (ih _ _)

/-- In a session with a new extractor there are tests first. Then the extractor's first call makes
the two runs, and its further calls recall what these showed. -/
theorem session_ofModule (s : σ) (m : Module) (calls : List Call) :
    (session runner s (ofModule m) calls).map Event.call = calls ∧
    ∃ f before after, session runner s (ofModule m) calls = before ++ after ∧
      (∀ event ∈ before, event.IsTest) ∧
      (after = [] ∨ ∃ event rest, after = event :: rest ∧ event.Finds m f ∧
        ∀ event ∈ rest, event.Recalls m f ∨ event.IsTest) := by
  refine ⟨map_call_session runner s _ calls, ?_⟩
  -- Tests leave the extractor new, so only the runner's state changes along the induction.
  induction calls generalizing s with
  | nil => exact ⟨.ofModule m 0 0, [], [], rfl, by simp, .inl rfl⟩
  | cons call calls ih =>
    cases call with
    | own query =>
      obtain ⟨f, e, event, s', hfinds, hknows, hsession⟩ := session_first runner s m query calls
      exact ⟨f, [], _, rfl, by simp, .inr ⟨event, _, hsession, hfinds,
        hknows.session runner s' calls⟩⟩
    | test t =>
      obtain ⟨event, s', htest, hsession⟩ := session_test runner s (ofModule m) t calls
      obtain ⟨f, before, after, happend, hbefore, hafter⟩ := ih s'
      refine ⟨f, event :: before, after, ?_, ?_, hafter⟩
      · rw [hsession, happend, List.cons_append]
      · exact List.forall_mem_cons.mpr ⟨htest, hbefore⟩

end Session

/-! ### What each run reaches -/

section Reach

variable {σ τ : Type} (runner : Runner σ) (s : σ)

/-- The profile of a program is found with a recording run and then a plain one, whatever the
replies are. -/
theorem course_findProfile (m : Module) : ∃ first second,
    ((ofModule m).findProfile.course runner s).log =
      [(.recording m, first), (.plain m, second)] ∧
    ((ofModule m).findProfile.course runner s).value.1 =
      let f := Features.ofModule m second.abnormal first.repeated
      ⟨f, Order.classify m f⟩ := by
  let first := runner s (.recording m)
  refine ⟨first.1, (runner first.2 (.plain m)).1, ?_⟩
  rw [findProfile_ofModule]
  exact ⟨rfl, rfl⟩

/-- The reply to the recording run reaches one feature, and the reply to the plain run another one
and the order of growth. Of the latter reply only its kind matters. -/
theorem findProfile_apart (m : Module) (other : Runner τ) (s' : τ) :
    let c := (ofModule m).findProfile.course runner s
    let c' := (ofModule m).findProfile.course other s'
    let p := c.value.1
    let p' := c'.value.1
    ∃ first second first' second',
      c.log = [(.recording m, first), (.plain m, second)] ∧
      c'.log = [(.recording m, first'), (.plain m, second')] ∧
      (second = second' →
        p' = { p with features.repeatedValue := p'.features.repeatedValue }) ∧
      (first = first' →
        p' = { p with features.abnormalEnd := p'.features.abnormalEnd, order := p'.order }) ∧
      (first = first' → (second.ShowsFailure ↔ second'.ShowsFailure) → p' = p) := by
  obtain ⟨first, second, hlog, hvalue⟩ := course_findProfile runner s m
  obtain ⟨first', second', hlog', hvalue'⟩ := course_findProfile other s' m
  refine ⟨first, second, first', second', hlog, hlog', ?_, ?_, ?_⟩
  · rintro rfl
    rw [hvalue, hvalue']
    exact congrArg (Profile.mk _) (Order.classify_congr rfl rfl rfl)
  · rintro rfl
    rw [hvalue, hvalue']
    rfl
  · rintro rfl hkind
    rw [hvalue, hvalue', Reply.abnormal_congr hkind]

end Reach

end Extractor

end Growth
