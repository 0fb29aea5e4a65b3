import Growth.Profile

/-! Work that is carried out with a runner. A runner answers requests, and each request may change
the state from which it answers the next. A list of replies is such a runner, and so is a rule. -/

namespace Growth

/-- What answers requests, from a state that each of them may change. -/
abbrev Runner (σ : Type) := σ → Request → Reply × σ

/-- The runner that gives out replies in order, and then runs that complete and write nothing. -/
def Runner.scripted : Runner (List Reply) :=
  fun replies _ => (replies.head?.getD (.ok .plain), replies.tail)

/-- How work went: what it came to, the requests with their replies, and the state in which the
runner was left. -/
structure Course (σ α : Type) where
  value : α
  log : List (Request × Reply)
  state : σ

def Course.requests {σ α : Type} (c : Course σ α) : List Request :=
  c.log.map Prod.fst

namespace Trial

variable {α β σ : Type}

/-- How work goes with a runner in a state. -/
def course (runner : Runner σ) (s : σ) (t : Trial α) : Course σ α :=
  match t with
  | done value => ⟨value, [], s⟩
  | run request next =>
    let (reply, s) := runner s request
    let c := (next reply).course runner s
    { c with log := (request, reply) :: c.log }

section Course

variable (runner : Runner σ) (s : σ)

@[simp] theorem course_done (value : α) : (done value).course runner s = ⟨value, [], s⟩ := rfl

theorem course_run (request : Request) (next : Reply → Trial α) :
    (run request next).course runner s =
      let reply := (runner s request).1
      let c := (next reply).course runner (runner s request).2
      { c with log := (request, reply) :: c.log } := rfl

/-- Work that is done one after the other: the second starts from what the first came to. -/
theorem course_bind (t : Trial α) (next : α → Trial β) :
    (t.bind next).course runner s =
      let c := t.course runner s
      let c' := (next c.value).course runner c.state
      { c' with log := c.log ++ c'.log } := by
  induction t generalizing s with
  | done value => rfl
  | run request more ih =>
    rw [bind, course_run, course_run]
    dsimp only
    rw [ih]
    rfl

theorem course_map (f : α → β) (t : Trial α) : (t.map f).course runner s =
    let c := t.course runner s
    ⟨f c.value, c.log, c.state⟩ := by
  rw [map, course_bind]
  simp only [course_done, List.append_nil]

/-- Work that is played against replies is carried out with the runner that gives them out. -/
theorem play_eq (replies : List Reply) (t : Trial α) :
    t.play replies =
      let c := t.course Runner.scripted replies
      (c.value, c.requests, c.state) := by
  induction t generalizing replies with
  | done value => rfl
  | run request next ih =>
    rw [play, ih, course_run]
    rfl

end Course

end Trial

/-! ### The runs that find features -/

def Request.recording (m : Code.Module) : Request :=
  ⟨Code.Recording.program m, [Code.Recording.flag]⟩

def Request.plain (m : Code.Module) : Request :=
  ⟨m.text, []⟩

namespace Reply

/-- What the reply to a recording run shows: 1 if a variable was given the same value twice. -/
def repeated : Reply → Nat
  | .ok report =>
    ((report.files.lookup Code.Recording.flag).any fun s => Text.trimmed s == "1").toNat
  | .error _ => 0

/-- Whether a reply shows a program that was stopped or that failed. -/
def ShowsFailure (reply : Reply) : Prop :=
  ∃ run : Run, reply = .ok run ∧ (run.ending = .timedOut ∨ ∃ message, run.ending = .fault message)

/-- What the reply to a plain run shows: 1 if the program came to no normal end. -/
def abnormal : Reply → Nat
  | .ok report => (report.ending != .completed).toNat
  | .error _ => 0

theorem abnormal_le_one (reply : Reply) : reply.abnormal ≤ 1 := by
  cases reply with
  | ok report => exact Bool.toNat_le _
  | error => exact Nat.zero_le 1

theorem abnormal_eq_one_iff (reply : Reply) : reply.abnormal = 1 ↔ reply.ShowsFailure := by
  cases reply with
  | error e => simp [abnormal, ShowsFailure]
  | ok report =>
    obtain ⟨ending, files⟩ := report
    cases ending <;> simp [abnormal, ShowsFailure]

theorem abnormal_congr {reply reply' : Reply} (h : reply.ShowsFailure ↔ reply'.ShowsFailure) :
    reply.abnormal = reply'.abnormal := by
  have hle := reply.abnormal_le_one
  have hle' := reply'.abnormal_le_one
  rw [← abnormal_eq_one_iff, ← abnormal_eq_one_iff] at h
  omega

end Reply

namespace Trial

theorem repeatedValue_eq (m : Code.Module) :
    repeatedValue m = run (.recording m) fun reply => done reply.repeated := by
  unfold repeatedValue
  refine congrArg _ (funext fun reply => ?_)
  cases reply <;> rfl

theorem abnormalEnd_eq (m : Code.Module) :
    abnormalEnd m = run (.plain m) fun reply => done reply.abnormal := by
  unfold abnormalEnd
  refine congrArg _ (funext fun reply => ?_)
  cases reply <;> rfl

/-- The features are found with a recording run and then a plain one. -/
theorem features_eq (m : Code.Module) : features m =
    run (.recording m) fun first => run (.plain m) fun second =>
      done (.ofModule m second.abnormal first.repeated) := by
  rw [features, repeatedValue_eq, abnormalEnd_eq]
  rfl

end Trial

end Growth
