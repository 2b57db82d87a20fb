import Dataflow.Proofs.Execution.Deeds
import Dataflow.Supervision

/-! The caller of a supervised execution. It takes part as the launcher of an execution does, so
whatever holds of executions holds of supervised ones. The error that is kept for it is that of the
first deed that failed, and when it answers, everyone who was launched has ended. -/
namespace Dataflow

variable {τ M κ ε α : Type} {start : Nat → Except κ (Program τ M ε α)}

namespace Execution

variable {execution : Execution τ M κ ε α}

def AllEnded (execution : Execution τ M κ ε α) : Prop :=
  ∀ runner ∈ execution.launch.threads, runner.status.ended = true

/-- Launching is over after a refusal or when every worker has been asked for. -/
theorem launchingOver_eq_true_iff : execution.launchingOver = true ↔
    execution.launch.fault.isSome = true ∨ execution.count ≤ execution.launch.asked.length := by
  rw [launchingOver, Bool.or_eq_true, decide_eq_true_iff]

/-- A launching that is over without a failed launch has asked for all launches. -/
theorem count_le_asked (h : execution.launchingOver = true)
    (hFault : execution.launch.fault = none) :
    execution.count ≤ execution.launch.asked.length := by
  refine (launchingOver_eq_true_iff.mp h).resolve_left ?_
  rw [hFault]
  exact Bool.false_ne_true

/-- When launching is over nothing more is launched. -/
theorem launchNext_of_launchingOver (h : execution.launchingOver = true) :
    execution.launchNext start = execution := by
  rcases launchingOver_eq_true_iff.mp h with hFault | hAll
  · obtain ⟨error, hFault⟩ := Option.isSome_iff_exists.mp hFault
    simp only [launchNext, Launch.next, hFault, ite_self]
  · rw [launchNext, if_neg (Nat.not_lt.mpr hAll)]

variable [DecidableEq τ]

/-- An act of a worker has no part in the launching. -/
theorem launchingOver_act (execution : Execution τ M κ ε α) (worker : Nat) :
    (execution.act worker).launchingOver = execution.launchingOver := by
  rcases execution.act_cases worker with
    hSame | ⟨_, -, ⟨_, -, hAct⟩ | ⟨_, -, -, hAct⟩⟩
  · rw [hSame]
  · rw [hAct]
    rfl
  · rw [hAct]
    rfl

/-- Whoever has ended has ended for good. -/
theorem act_keeps_ended {worker : Nat} (h : ∀ runner,
    execution.launch.threads[worker]? = some runner → runner.status.ended = true) (other : Nat) :
    ∀ runner, (execution.act other).launch.threads[worker]? = some runner →
      runner.status.ended = true := by
  have hApart {runner : Runner τ M ε α} (hRunner : execution.launch.threads[other]? = some runner)
      (hStatus : runner.status.ended = false) : other ≠ worker := by
    rintro rfl
    rw [h runner hRunner] at hStatus
    cases hStatus
  rcases execution.act_cases other with
    hSame | ⟨runner, hRunner, ⟨program, hStatus, hAct⟩ | ⟨program, hStatus, -, hAct⟩⟩
  · rwa [hSame]
  · rw [hAct, threads_settle, List.getElem?_set_ne (hApart hRunner (by rw [hStatus]; rfl))]
    exact h
  · rw [hAct, threads_settle, List.getElem?_set_ne (hApart hRunner (by rw [hStatus]; rfl))]
    exact h

/-- Where all have ended nobody acts. -/
theorem act_of_allEnded (h : execution.AllEnded) (worker : Nat) :
    execution.act worker = execution := by
  cases hRunner : execution.launch.threads[worker]? with
  | none => exact act_of_none hRunner
  | some runner => exact act_of_ended hRunner (h runner (List.mem_of_getElem? hRunner))

/-- The error with which a worker is about to fail is that of the deed it is about to do. -/
theorem failing?_eq (execution : Execution τ M κ ε α) (worker : Nat) :
    (execution.status? worker).bind Status.failing? =
      (execution.deed? (.worker worker)).toList.findSome? Deed.error? := by
  simp only [deed?]
  cases hStatus : execution.status? worker with
  | none => rfl
  | some status =>
      cases status with
      | running program => cases program <;> rfl
      | waiting program => rfl
      | returned result => rfl
      | failed error => rfl

end Execution

namespace Supervision

variable {supervision : Supervision τ M κ ε α}

/-- All that an act of the caller can come to. -/
inductive Calls (start : Nat → Except κ (Program τ M ε α)) (supervision : Supervision τ M κ ε α) :
    Supervision τ M κ ε α → Prop where
  | launch (phase : supervision.phase = .launching)
      (more : supervision.execution.launchingOver = false) :
      Calls start supervision
        { supervision with execution := supervision.execution.launchNext start }
  | join (phase : supervision.phase = .launching)
      (done : supervision.execution.launchingOver = true) :
      Calls start supervision { supervision with phase := .joining 0 }
  | joined {next : Nat} {runner : Runner τ M ε α} (phase : supervision.phase = .joining next)
      (here : supervision.execution.launch.threads[next]? = some runner)
      (ended : runner.status.ended = true) :
      Calls start supervision { supervision with phase := .joining (next + 1) }
  | blocked {next : Nat} {runner : Runner τ M ε α} (phase : supervision.phase = .joining next)
      (here : supervision.execution.launch.threads[next]? = some runner)
      (ended : runner.status.ended = false) : Calls start supervision supervision
  | answer {next : Nat} (phase : supervision.phase = .joining next)
      (none : supervision.execution.launch.threads[next]? = none) :
      Calls start supervision { supervision with phase := .answered supervision.answer }
  | answered {error : Option (ExecutionError κ ε)} (phase : supervision.phase = .answered error) :
      Calls start supervision supervision

/-- A turn of the caller is one of the things that the caller can do. -/
theorem calls_call (start : Nat → Except κ (Program τ M ε α))
    (supervision : Supervision τ M κ ε α) : supervision.Calls start (supervision.call start) := by
  obtain ⟨execution, captured, phase⟩ := supervision
  cases phase with
  | launching =>
      cases hOver : execution.launchingOver with
      | true =>
          rw [call, if_pos hOver]
          exact .join rfl hOver
      | false =>
          rw [call, if_neg (by simp [hOver])]
          exact .launch rfl hOver
  | joining next =>
      cases hRunner : execution.launch.threads[next]? with
      | none =>
          simp only [call, hRunner]
          exact .answer rfl hRunner
      | some runner =>
          simp only [call, hRunner]
          cases hEnded : runner.status.ended with
          | true => exact .joined rfl hRunner hEnded
          | false => exact .blocked rfl hRunner hEnded
  | answered error => exact .answered rfl

/-- The caller joins only when the launching is over, goes from one thread to the next when it has
ended, and answers when all have. -/
structure Stands (supervision : Supervision τ M κ ε α) : Prop where
  launched : supervision.phase ≠ .launching → supervision.execution.launchingOver = true
  joined : ∀ next, supervision.phase = .joining next → ∀ worker < next, ∀ runner,
    supervision.execution.launch.threads[worker]? = some runner → runner.status.ended = true
  answered : ∀ error, supervision.phase = .answered error →
    supervision.execution.AllEnded ∧ error = supervision.answer

variable {later : Supervision τ M κ ε α}

/-- To the execution, the caller is the launcher. -/
theorem Calls.execution_eq (hCalls : supervision.Calls start later) (h : supervision.Stands) :
    later.execution = supervision.execution.launchNext start := by
  have hLaunched (hPhase : supervision.phase ≠ .launching) :
      supervision.execution = supervision.execution.launchNext start :=
    (Execution.launchNext_of_launchingOver (h.launched hPhase)).symm
  cases hCalls with
  | launch phase more => rfl
  | join phase done => exact (Execution.launchNext_of_launchingOver done).symm
  | joined phase here ended => exact hLaunched (by simp [phase])
  | blocked phase here ended => exact hLaunched (by simp [phase])
  | answer phase none => exact hLaunched (by simp [phase])
  | answered phase => exact hLaunched (by simp [phase])

/-- Nothing that the caller does has a part in what is kept for it. -/
theorem Calls.captured_eq (hCalls : supervision.Calls start later) :
    later.captured = supervision.captured := by
  cases hCalls <;> rfl

/-- Nothing that the caller does breaks what it stands for. -/
theorem Calls.stands (hCalls : supervision.Calls start later) (h : supervision.Stands) :
    later.Stands := by
  cases hCalls with
  | launch phase more =>
      exact ⟨fun hPhase => absurd phase hPhase, fun _ hPhase => (nomatch phase.symm.trans hPhase),
        fun _ hPhase => (nomatch phase.symm.trans hPhase)⟩
  | join phase done =>
      refine ⟨fun _ => done, ?_, fun _ hPhase => (nomatch hPhase)⟩
      rintro _ ⟨⟩ worker hWorker
      exact absurd hWorker (Nat.not_lt_zero _)
  | @joined next runner phase here ended =>
      refine ⟨fun _ => h.launched (by simp [phase]), ?_, fun _ hPhase => (nomatch hPhase)⟩
      rintro _ ⟨⟩ worker hWorker runner' hRunner'
      rcases Nat.lt_succ_iff_lt_or_eq.mp hWorker with hEarlier | rfl
      · exact h.joined next phase worker hEarlier runner' hRunner'
      · cases here.symm.trans hRunner'
        exact ended
  | blocked phase here ended => exact h
  | @answer next phase none =>
      refine ⟨fun _ => h.launched (by simp [phase]), fun _ hPhase => (nomatch hPhase), ?_⟩
      rintro _ ⟨⟩
      refine ⟨fun runner hRunner => ?_, rfl⟩
      obtain ⟨worker, hWorker⟩ := List.mem_iff_getElem?.mp hRunner
      have hLength := (List.getElem?_eq_some_iff.mp hWorker).1
      have hNext := List.getElem?_eq_none_iff.mp none
      exact h.joined next phase worker (Nat.lt_of_lt_of_le hLength hNext) runner hWorker
  | answered phase => exact h

variable [DecidableEq τ]

theorem act_of_idle {worker : Nat}
    (hAct : supervision.execution.act worker = supervision.execution)
    (hFailing : (supervision.execution.status? worker).bind Status.failing? = none) :
    supervision.act worker = supervision := by
  simp only [act, hAct, hFailing, Option.or_none]

/-- Once everyone has ended, turns of workers change nothing. -/
theorem act_of_allEnded (h : supervision.execution.AllEnded) (worker : Nat) :
    supervision.act worker = supervision := by
  refine act_of_idle (Execution.act_of_allEnded h worker) ?_
  cases hRunner : supervision.execution.launch.threads[worker]? with
  | none => rw [Execution.status?, hRunner]; rfl
  | some runner =>
      have hEnded := h runner (List.mem_of_getElem? hRunner)
      rw [Execution.status?, hRunner, Option.map_some, Option.bind_some]
      cases hStatus : runner.status with
      | running program => rw [hStatus] at hEnded; cases hEnded
      | waiting program => rfl
      | returned result => rfl
      | failed error => rfl

/-- No act of a worker breaks it either. -/
theorem Stands.act (h : supervision.Stands) (worker : Nat) : (supervision.act worker).Stands where
  launched hPhase := (supervision.execution.launchingOver_act worker).trans (h.launched hPhase)
  joined next hPhase other hOther := Execution.act_keeps_ended (h.joined next hPhase other hOther) _
  answered error hPhase := by
    obtain ⟨hEnded, hError⟩ := h.answered error hPhase
    rw [act_of_allEnded hEnded]
    exact ⟨hEnded, hError⟩

/-- Every turn of a supervision is a turn of its execution. -/
theorem Stands.step (h : supervision.Stands) (start : Nat → Except κ (Program τ M ε α))
    (turn : Turn) : (supervision.step start turn).Stands ∧
      (supervision.step start turn).execution = supervision.execution.step start turn := by
  cases turn with
  | launcher =>
      have hCalls := supervision.calls_call start
      exact ⟨hCalls.stands h, hCalls.execution_eq h⟩
  | worker index => exact ⟨h.act index, rfl⟩

/-- The execution under supervision is one in which the caller's turns are the launcher's. -/
theorem Stands.after (h : supervision.Stands) (start : Nat → Except κ (Program τ M ε α))
    (turns : List Turn) : (supervision.after start turns).Stands ∧
      (supervision.after start turns).execution = supervision.execution.after start turns := by
  induction turns generalizing supervision with
  | nil => exact ⟨h, rfl⟩
  | cons turn turns ih =>
      obtain ⟨hStep, hExecution⟩ := h.step start turn
      obtain ⟨hRest, hSame⟩ := ih hStep
      rw [hExecution] at hSame
      exact ⟨hRest, hSame⟩

/-- Once the caller has answered, nothing happens any more. -/
theorem Stands.after_answered (h : supervision.Stands) {error : Option (ExecutionError κ ε)}
    (hPhase : supervision.phase = .answered error) (start : Nat → Except κ (Program τ M ε α))
    (turns : List Turn) : supervision.after start turns = supervision := by
  induction turns with
  | nil => rfl
  | cons turn turns ih =>
      have hStep : supervision.step start turn = supervision := by
        cases turn with
        | launcher => simp only [Supervision.step, call, hPhase]
        | worker index => exact act_of_allEnded (h.answered error hPhase).1 index
      change (supervision.step start turn).after start turns = supervision
      rw [hStep, ih]

/-- The error that is kept for the caller is that of the first deed that failed. -/
theorem captured_after (h : supervision.Stands) (start : Nat → Except κ (Program τ M ε α))
    (turns : List Turn) : (supervision.after start turns).captured =
      supervision.captured.or
        ((supervision.execution.deeds start turns).findSome? Deed.error?) := by
  induction turns generalizing supervision with
  | nil => exact Option.or_none.symm
  | cons turn turns ih =>
      obtain ⟨hStep, hExecution⟩ := h.step start turn
      have hCaptured : (supervision.step start turn).captured =
          supervision.captured.or
            ((supervision.execution.deed? turn).toList.findSome? Deed.error?) := by
        cases turn with
        | launcher =>
            exact (supervision.calls_call start).captured_eq.trans Option.or_none.symm
        | worker index =>
            exact congrArg supervision.captured.or (supervision.execution.failing?_eq index)
      change ((supervision.step start turn).after start turns).captured = _
      rw [ih hStep, hCaptured, hExecution, Execution.deeds, List.findSome?_append, Option.or_assoc]

end Supervision

end Dataflow
