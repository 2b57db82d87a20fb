import Dataflow.Proofs.Supervision.Fairness

/-! The complete execution under supervision. If nobody ever waits, or if all launches succeed and
nobody waits twice, then the complete execution brings everyone to an end, and the caller's answer
is the error of the execution. -/
namespace Dataflow

variable {τ M κ ε α : Type} [DecidableEq τ]

/-- A worker that goes on as far as it can comes to its end or waits, with one meeting less to come
to. -/
theorem World.run_meets (worker : Nat) {n : Nat} {program : Program τ M ε α} (h : program.Meets n)
    (world : World τ M) : (world.run worker program).1.Meets n := by
  induction program generalizing n world with
  | finish result => cases n <;> trivial
  | fail error => cases n <;> trivial
  | perform effect next ih => exact ih () (h ()) _
  | claim channel kind next ih => exact ih _ (h _) _
  | take channel next ih => exact ih _ (h _) _
  | drain channel next ih => exact ih _ (h _) _
  | meet next ih =>
      cases n with
      | zero => exact h.elim
      | succ n => exact h ()

/-- The worker has ended or has come to its last meeting. -/
def Status.Arrived : Status τ M ε α → Prop
  | .running _ => False
  | .waiting program => program.Meets 0
  | .returned _ | .failed _ => True

omit [DecidableEq τ] in
/-- Whoever has ended has no meeting before it. -/
theorem Status.meets_of_ended {status : Status τ M ε α} (h : status.ended = true) (n : Nat) :
    status.Meets n := by
  cases status with
  | running program => cases h
  | waiting program => cases h
  | returned result => cases n <;> trivial
  | failed error => cases n <;> trivial

omit [DecidableEq τ] in
theorem Status.arrived_of_ended {status : Status τ M ε α} (h : status.ended = true) :
    status.Arrived := by
  cases status with
  | running program => cases h
  | waiting program => cases h
  | returned result => trivial
  | failed error => trivial

omit [DecidableEq τ] in
/-- Whoever has arrived has at most one meeting before it. -/
theorem Status.meets_of_arrived {status : Status τ M ε α} (h : status.Arrived) :
    status.Meets 1 := by
  cases status with
  | running program => exact h.elim
  | waiting program => exact h
  | returned result => trivial
  | failed error => trivial

/-- A worker with at most one meeting comes to it or to its end. -/
theorem World.run_arrived (worker : Nat) {program : Program τ M ε α} (h : program.Meets 1)
    (world : World τ M) : (world.run worker program).1.Arrived := by
  have hMeets := world.run_meets worker h
  cases hStatus : (world.run worker program).1 with
  | running rest => exact absurd hStatus (World.run_ne_running worker program rest world)
  | waiting rest => rwa [hStatus] at hMeets
  | returned result => trivial
  | failed error => trivial

/-- A worker without meetings comes to its end. -/
theorem World.run_ended (worker : Nat) {program : Program τ M ε α} (h : program.Meets 0)
    (world : World τ M) : (world.run worker program).1.ended = true := by
  have hMeets := world.run_meets worker h
  cases hStatus : (world.run worker program).1 with
  | running rest => exact absurd hStatus (World.run_ne_running worker program rest world)
  | waiting rest => rw [hStatus] at hMeets; exact hMeets.elim
  | returned result => rfl
  | failed error => rfl

/-! ### Launching everyone -/

namespace Launch

variable {θ : Type} {start : Nat → Except κ θ} {launch : Launch κ θ}

/-- All that asking for the next launch can come to. -/
theorem next_cases (start : Nat → Except κ θ) (launch : Launch κ θ) :
    (launch.fault.isSome = true ∧ launch.next start = launch) ∨
    (launch.next start).asked.length = launch.asked.length + 1 ∧
      ∀ thread ∈ (launch.next start).threads,
        thread ∈ launch.threads ∨ ∃ index, start index = .ok thread := by
  cases hFault : launch.fault with
  | some error => exact Or.inl ⟨rfl, by simp only [next, hFault]⟩
  | none =>
      refine Or.inr ?_
      simp only [next, hFault]
      cases hStart : start launch.asked.length with
      | error error => exact ⟨List.length_append, fun thread hThread => Or.inl hThread⟩
      | ok started =>
          refine ⟨List.length_append, fun thread hThread => ?_⟩
          rcases List.mem_append.mp hThread with hOld | hNew
          · exact Or.inl hOld
          · exact Or.inr ⟨_, (List.mem_singleton.mp hNew) ▸ hStart⟩

/-- A launching comes to its end or to a launch that fails, and every thread is one of those that
were to be launched. -/
theorem go_over (start : Nat → Except κ θ) (n : Nat) (launch : Launch κ θ) :
    ((launch.go start n).fault.isSome = true ∨
      (launch.go start n).asked.length = launch.asked.length + n) ∧
    ∀ thread ∈ (launch.go start n).threads,
      thread ∈ launch.threads ∨ ∃ index, start index = .ok thread := by
  induction n generalizing launch with
  | zero => exact ⟨Or.inr rfl, fun thread hThread => Or.inl hThread⟩
  | succ n ih =>
      have hNext : ∀ thread ∈ (launch.next start).threads,
          thread ∈ launch.threads ∨ ∃ index, start index = .ok thread := by
        rcases launch.next_cases start with ⟨-, hSame⟩ | ⟨-, hThreads⟩
        · rw [hSame]
          exact fun thread hThread => Or.inl hThread
        · exact hThreads
      rw [go]
      cases hFault : (launch.next start).fault with
      | some error => exact ⟨Or.inl (by rw [hFault]; rfl), hNext⟩
      | none =>
          obtain ⟨hOver, hThreads⟩ := ih (launch.next start)
          refine ⟨?_, fun thread hThread => ?_⟩
          · rcases launch.next_cases start with ⟨hSome, hSame⟩ | ⟨hAsked, -⟩
            · rw [hSame] at hFault
              rw [hFault] at hSome
              cases hSome
            · rw [hAsked, Nat.add_assoc, Nat.add_comm 1] at hOver
              exact hOver
          · rcases hThreads thread hThread with hOld | hNew
            · exact hNext thread hOld
            · exact Or.inr hNew

end Launch

namespace Execution

variable {execution : Execution τ M κ ε α} {start : Nat → Except κ (Program τ M ε α)}

/-- The execution once its launching is over. -/
def launchAll (start : Nat → Except κ (Program τ M ε α)) (execution : Execution τ M κ ε α) :
    Execution τ M κ ε α :=
  { execution with
    launch := execution.launch.go
      (fun index => (start index).map fun program => { status := .running program })
      execution.count }

omit [DecidableEq τ] in
/-- All workers are launched up to the first that is refused. -/
theorem launchAll_spec (start : Nat → Except κ (Program τ M ε α)) (world : World τ M)
    (count : Nat) :
    let launched := launchAll start ({ world, count } : Execution τ M κ ε α)
    launched.launchingOver = true ∧
    ∀ runner ∈ launched.launch.threads, ∃ index program,
      start index = .ok program ∧ runner.status = .running program := by
  obtain ⟨hOver, hThreads⟩ := Launch.go_over
    (fun index => (start index).map fun program => { status := .running program }) count
    ({} : Launch κ (Runner τ M ε α))
  refine ⟨?_, fun runner hRunner => ?_⟩
  · refine launchingOver_eq_true_iff.mpr ?_
    exact hOver.imp_right fun hAsked => Nat.le_of_eq (hAsked.trans (Nat.zero_add count)).symm
  · rcases hThreads runner hRunner with hNone | ⟨index, hStarted⟩
    · cases hNone
    · cases hStart : start index with
      | error error => rw [hStart] at hStarted; cases hStarted
      | ok program =>
          rw [hStart] at hStarted
          cases hStarted
          exact ⟨index, program, hStart, rfl⟩

/-! ### Letting everyone go on -/

/-- Workers that advance launch nobody. -/
theorem launchingOver_advance (execution : Execution τ M κ ε α) (worker : Nat) :
    (execution.advance worker).launchingOver = execution.launchingOver := by
  rcases execution.advance_cases worker with ⟨hSame, -⟩ | ⟨_, _, -, -, hAdvance⟩
  · rw [hSame]
  · rw [hAdvance]
    rfl

theorem launchingOver_foldl_advance (workers : List Nat) (execution : Execution τ M κ ε α) :
    (workers.foldl advance execution).launchingOver = execution.launchingOver := by
  induction workers generalizing execution with
  | nil => rfl
  | cons worker workers ih => exact (ih _).trans (execution.launchingOver_advance worker)

/-- What holds of a worker that has gone on as far as it can. -/
theorem shifted_advance {worker : Nat} {P : Runner τ M ε α → Prop}
    (hWorker : worker < execution.launch.threads.length)
    (hStops : ∀ runner ∈ execution.launch.threads,
      (∃ program, runner.status = .waiting program ∧ execution.isOpen = false) ∨
        runner.status.ended = true → P runner)
    (hGoes : ∀ runner ∈ execution.launch.threads, ∀ program,
      (runner.status = .running program ∨
        runner.status = .waiting program ∧ execution.isOpen = true) →
      P (runner.moved (execution.world.run worker program).1)) :
    Shifted worker P execution (execution.advance worker) := by
  have hRunner := List.getElem?_eq_getElem hWorker
  rcases execution.advance_cases worker with
    ⟨hSame, hStop⟩ | ⟨runner, program, hHere, hStatus, hAdvance⟩
  · rw [hSame]
    exact ⟨rfl, rfl, fun _ _ => rfl, _, hRunner,
      hStops _ (List.mem_of_getElem? hRunner) (hStop _ hRunner)⟩
  · rw [hAdvance]
    exact ⟨rfl, List.length_set, fun other hOther => List.getElem?_set_ne (Ne.symm hOther), _,
      List.getElem?_set_self hWorker, hGoes runner (List.mem_of_getElem? hHere) program hStatus⟩

omit [DecidableEq τ] in
/-- What holds of the others and of the worker itself holds of all. -/
theorem Shifted.forall {worker : Nat} {P Q : Runner τ M ε α → Prop}
    {before after : Execution τ M κ ε α} (h : Shifted worker P before after)
    (hOthers : ∀ runner ∈ before.launch.threads, Q runner) (hHere : ∀ runner, P runner → Q runner) :
    ∀ runner ∈ after.launch.threads, Q runner := by
  intro runner hRunner
  obtain ⟨other, hOther⟩ := List.mem_iff_getElem?.mp hRunner
  by_cases hWorker : other = worker
  · obtain ⟨found, hFound, hP⟩ := h.here
    rw [hWorker, hFound, Option.some.injEq] at hOther
    exact hOther ▸ hHere found hP
  · rw [h.others other hWorker] at hOther
    exact hOthers runner (List.mem_of_getElem? hOther)

/-- If nobody waits, whoever goes on ends. -/
theorem ends_advance {worker : Nat}
    (h : ∀ runner ∈ execution.launch.threads, runner.status.Meets 0)
    (hWorker : worker < execution.launch.threads.length) :
    (∀ runner ∈ (execution.advance worker).launch.threads, runner.status.Meets 0) ∧
    Shifted worker (fun runner => runner.status.ended = true) execution
      (execution.advance worker) := by
  have hShift : Shifted worker (fun runner => runner.status.ended = true) execution
      (execution.advance worker) := by
    refine shifted_advance hWorker (fun runner hRunner hStop => ?_)
      fun runner hRunner program hStatus => ?_
    · rcases hStop with ⟨program, hWaiting, -⟩ | hEnded
      · have hMeets := h runner hRunner
        rw [hWaiting] at hMeets
        exact hMeets.elim
      · exact hEnded
    · have hMeets := h runner hRunner
      rcases hStatus with hRunning | ⟨hWaiting, -⟩
      · rw [hRunning] at hMeets
        exact World.run_ended worker hMeets _
      · rw [hWaiting] at hMeets
        exact hMeets.elim
  exact ⟨hShift.forall h fun runner hEnded => Status.meets_of_ended hEnded 0, hShift⟩

/-- If nobody waits twice, whoever goes on comes to its last meeting or to its end. -/
theorem arrives_advance {worker : Nat}
    (h : execution.Sound ∧ ∀ runner ∈ execution.launch.threads, runner.status.Meets 1)
    (hWorker : worker < execution.launch.threads.length) :
    ((execution.advance worker).Sound ∧
      ∀ runner ∈ (execution.advance worker).launch.threads, runner.status.Meets 1) ∧
    Shifted worker (fun runner => runner.status.Arrived) execution (execution.advance worker) := by
  obtain ⟨hSound, hMeets⟩ := h
  have hShift : Shifted worker (fun runner => runner.status.Arrived) execution
      (execution.advance worker) := by
    refine shifted_advance hWorker (fun runner hRunner hStop => ?_)
      fun runner hRunner program hStatus => ?_
    · have hHere := hMeets runner hRunner
      rcases hStop with ⟨program, hWaiting, -⟩ | hEnded
      · rw [hWaiting] at hHere ⊢
        exact hHere
      · exact Status.arrived_of_ended hEnded
    · have hHere := hMeets runner hRunner
      rcases hStatus with hRunning | ⟨hWaiting, -⟩
      · rw [hRunning] at hHere
        exact World.run_arrived worker hHere _
      · rw [hWaiting] at hHere
        exact Status.arrived_of_ended (World.run_ended worker hHere _)
  exact ⟨⟨(moved_advance hSound hWorker).sound,
    hShift.forall hMeets fun runner hArrived => Status.meets_of_arrived hArrived⟩, hShift⟩

/-- While the meeting is open, whoever goes on from its last meeting ends. -/
theorem leaves_advance {worker : Nat}
    (h : execution.Sound ∧ execution.isOpen = true ∧
      ∀ runner ∈ execution.launch.threads, runner.status.Arrived)
    (hWorker : worker < execution.launch.threads.length) :
    ((execution.advance worker).Sound ∧ (execution.advance worker).isOpen = true ∧
      ∀ runner ∈ (execution.advance worker).launch.threads, runner.status.Arrived) ∧
    Shifted worker (fun runner => runner.status.ended = true) execution
      (execution.advance worker) := by
  obtain ⟨hSound, hOpen, hArrived⟩ := h
  have hMoved := moved_advance hSound hWorker
  have hShift : Shifted worker (fun runner => runner.status.ended = true) execution
      (execution.advance worker) := by
    refine shifted_advance hWorker (fun runner hRunner hStop => ?_)
      fun runner hRunner program hStatus => ?_
    · rcases hStop with ⟨program, -, hShut⟩ | hEnded
      · rw [hOpen] at hShut
        cases hShut
      · exact hEnded
    · have hHere := hArrived runner hRunner
      rcases hStatus with hRunning | ⟨hWaiting, -⟩
      · rw [hRunning] at hHere
        exact hHere.elim
      · rw [hWaiting] at hHere
        exact World.run_ended worker hHere _
  exact ⟨⟨hMoved.sound, hMoved.isOpen hOpen,
    hShift.forall hArrived fun runner hEnded => Status.arrived_of_ended hEnded⟩, hShift⟩

omit [DecidableEq τ] in
/-- Whoever has arrived rests. -/
theorem Sound.rests_of_arrived (h : execution.Sound) {runner : Runner τ M ε α}
    (hRunner : runner ∈ execution.launch.threads) (hArrived : runner.status.Arrived) :
    Rests runner := by
  cases hStatus : runner.status with
  | running program => rw [hStatus] at hArrived; exact hArrived.elim
  | waiting program => exact Or.inl (h.met runner hRunner program hStatus)
  | returned result => exact Or.inr (by rw [hStatus]; rfl)
  | failed error => exact Or.inr (by rw [hStatus]; rfl)

/-- Nobody waits more than once, and not at all if a launch may fail. -/
def Brief (start : Nat → Except κ (Program τ M ε α)) (count : Nat) : Prop :=
  ((∀ index < count, ∃ program, start index = .ok program) ∧
    ∀ index program, start index = .ok program → program.Meets 1) ∨
  ∀ index program, start index = .ok program → program.Meets 0

/-- Launching all workers is a matter of turns. -/
theorem launchAll_after (start : Nat → Except κ (Program τ M ε α)) (world : World τ M)
    (count : Nat) : ∃ turns, launchAll start ({ world, count } : Execution τ M κ ε α) =
      after start turns { world, count } :=
  ⟨List.replicate count .launcher, (launch_after start count (Nat.le_of_eq (Nat.zero_add _))).symm⟩

/-- In the complete execution everyone who is launched ends. -/
theorem allEnded_complete (world : World τ M) {count : Nat} (h : Brief start count) :
    (complete start ({ world, count } : Execution τ M κ ε α)).AllEnded := by
  let launched := launchAll start ({ world, count } : Execution τ M κ ε α)
  let workers := List.range launched.launch.threads.length
  let first := workers.foldl advance launched
  change (workers.foldl advance first).AllEnded
  obtain ⟨hOver, hRunning⟩ := launchAll_spec start world count
  have hMeets {n : Nat} (hBrief : ∀ index program, start index = .ok program → program.Meets n) :
      ∀ runner ∈ launched.launch.threads, runner.status.Meets n := by
    intro runner hRunner
    obtain ⟨index, program, hStart, hStatus⟩ := hRunning runner hRunner
    rw [hStatus, Status.Meets]
    exact hBrief index program hStart
  rcases h with ⟨hStart, hBrief⟩ | hBrief
  · have hSound : launched.Sound := by
      obtain ⟨turns, hTurns⟩ := launchAll_after start world count
      have hBegun : ({ world, count } : Execution τ M κ ε α).Sound :=
        ⟨rfl, rfl, Nat.zero_le _, fun _ hNone => nomatch hNone⟩
      have hReached := hBegun.after hStart turns
      rwa [← hTurns] at hReached
    obtain ⟨⟨hFirst, -⟩, hCount, hLength, hArrived⟩ := forall_of_shift
      (fun _ _ hReached hWorker => arrives_advance hReached hWorker) ⟨hSound, hMeets hBrief⟩
    have hOpen : first.isOpen = true :=
      isOpen_iff.mpr ⟨hLength.trans ((hSound.length_eq hOver).trans hCount.symm),
        fun runner hRunner => hFirst.rests_of_arrived hRunner (hArrived runner hRunner)⟩
    have hSecond := forall_of_shift
      (fun _ _ hReached hWorker => leaves_advance hReached hWorker) ⟨hFirst, hOpen, hArrived⟩
    rw [hLength] at hSecond
    exact hSecond.2.2.2
  · obtain ⟨hFirst, -, hLength, -⟩ := forall_of_shift
      (fun _ _ hReached hWorker => ends_advance hReached hWorker) (hMeets hBrief)
    have hSecond := forall_of_shift
      (fun _ _ hReached hWorker => ends_advance hReached hWorker) hFirst
    rw [hLength] at hSecond
    exact hSecond.2.2.2

theorem launchingOver_complete (start : Nat → Except κ (Program τ M ε α)) (world : World τ M)
    (count : Nat) :
    (complete start ({ world, count } : Execution τ M κ ε α)).launchingOver = true := by
  refine (launchingOver_foldl_advance _ _).trans ((launchingOver_foldl_advance _ _).trans ?_)
  exact (launchAll_spec start world count).1

end Execution

/-! ### The caller answers -/

namespace Supervision

variable {supervision : Supervision τ M κ ε α} {start : Nat → Except κ (Program τ M ε α)}

/-- Once everyone who was to be launched has ended, the caller needs no one else's turns to come to
its answer. -/
theorem answers (h : supervision.Stands) (hOrderly : supervision.execution.Orderly start)
    (hOver : supervision.execution.launchingOver = true)
    (hEnded : supervision.execution.AllEnded) : ∃ n,
      let final := supervision.after start (List.replicate n .launcher)
      final.phase = .answered supervision.answer ∧ final.execution = supervision.execution := by
  induction hToGo : supervision.toGo using Nat.strong_induction_on generalizing supervision with
  | _ toGo ih =>
      subst hToGo
      have hCalls := supervision.calls_call start
      rcases hCalls.toGo_lt hOrderly with
        hLess | ⟨-, ⟨next, runner, -, hRunner, hStill⟩ | ⟨error, hPhase⟩⟩
      · have hSame : (supervision.call start).execution = supervision.execution :=
          (hCalls.execution_eq h).trans (Execution.launchNext_of_launchingOver hOver)
        have hAnswer : (supervision.call start).answer = supervision.answer := by
          rw [answer, answer, hSame, hCalls.captured_eq]
        obtain ⟨n, hPhase, hExecution⟩ := ih _ hLess (hCalls.stands h) (hSame ▸ hOrderly)
          (hSame ▸ hOver) (hSame ▸ hEnded) rfl
        refine ⟨n + 1, ?_⟩
        rw [List.replicate_succ]
        exact ⟨hAnswer ▸ hPhase, hExecution.trans hSame⟩
      · rw [hEnded runner (List.mem_of_getElem? hRunner)] at hStill
        cases hStill
      · exact ⟨0, (h.answered error hPhase).2 ▸ hPhase, rfl⟩

end Supervision

end Dataflow
