import Dataflow.Proofs.Execution.Turns

/-! The execution in which each worker goes on as far as it can before the next is one of those in
which the turns come in any order. A worker that goes on as far as it can takes one turn after the
other until it waits or has ended. -/
namespace Dataflow

variable {τ M κ ε α : Type} [DecidableEq τ]

omit [DecidableEq τ] in
/-- At most one worker is asked for at a time. -/
theorem Launch.length_asked_next {θ : Type} (start : Nat → Except ε θ) (launch : Launch ε θ) :
    (launch.next start).asked.length ≤ launch.asked.length + 1 := by
  unfold next
  split
  · exact Nat.le_succ _
  · dsimp only
    split <;> exact Nat.le_of_eq List.length_append

/-- A worker that goes on as far as it can is not running afterwards. -/
theorem World.run_ne_running (worker : Nat) (program rest : Program τ M ε α) (world : World τ M) :
    (world.run worker program).1 ≠ .running rest := by
  induction program generalizing world with
  | finish result => intro hRunning; cases hRunning
  | fail error => intro hRunning; cases hRunning
  | perform effect next ih => exact ih () _
  | claim channel kind next ih => exact ih _ _
  | take channel next ih => exact ih _ _
  | drain channel next ih => exact ih _ _
  | meet next ih => intro hRunning; cases hRunning

namespace Execution

variable {execution : Execution τ M κ ε α} {worker : Nat} {runner : Runner τ M ε α}

omit [DecidableEq τ] in
/-- Of two acts of one worker only the second is left to be seen. -/
theorem settle_settle (execution : Execution τ M κ ε α) (worker : Nat) (runner : Runner τ M ε α)
    (rest : Program τ M ε α) (status : Status τ M ε α) (world world' : World τ M) :
    (execution.settle worker runner (.running rest) world).settle worker
        (runner.moved (.running rest)) status world' =
      execution.settle worker runner status world' := by
  simp only [settle, List.set_set, Status.ended, Bool.false_eq_true, if_false]
  cases status <;> rfl

/-- To go on after an act is to take a turn and go on from there. -/
theorem settle_of_act {start : Nat → Except κ (Program τ M ε α)} {program rest : Program τ M ε α}
    {world : World τ M} (h : execution.launch.threads[worker]? = some runner)
    (hStatus : runner.status = .running program)
    (hAct : execution.world.act worker program = (.running rest, world))
    (hRun : execution.world.run worker program = world.run worker rest)
    (hRest : ∀ moved : Execution τ M κ ε α, moved.world = world →
      moved.launch.threads[worker]? = some (runner.moved (.running rest)) →
      ∃ turns, moved.after start turns = moved.settle worker (runner.moved (.running rest))
        (world.run worker rest).1 (world.run worker rest).2) :
    ∃ turns, execution.after start turns = execution.settle worker runner
      (execution.world.run worker program).1 (execution.world.run worker program).2 := by
  have hThread : (execution.settle worker runner (.running rest) world).launch.threads[worker]? =
      some (runner.moved (.running rest)) := by
    rw [threads_settle, List.getElem?_set_self (List.getElem?_eq_some_iff.mp h).1]
  obtain ⟨turns, hTurns⟩ := hRest _ rfl hThread
  refine ⟨.worker worker :: turns, ?_⟩
  change (execution.act worker).after start turns = _
  rw [act_of_running h hStatus, hAct, hTurns, settle_settle, hRun]

/-- To go on as far as one can is to take turns. -/
theorem settle_run (start : Nat → Except κ (Program τ M ε α)) (program : Program τ M ε α)
    (h : execution.launch.threads[worker]? = some runner)
    (hStatus : runner.status = .running program) : ∃ turns, execution.after start turns =
      execution.settle worker runner (execution.world.run worker program).1
        (execution.world.run worker program).2 := by
  induction program generalizing execution runner with
  | finish result => exact ⟨[.worker worker], act_of_running h hStatus⟩
  | fail error => exact ⟨[.worker worker], act_of_running h hStatus⟩
  | meet next ih => exact ⟨[.worker worker], act_of_running h hStatus⟩
  | perform effect next ih =>
      have hAct : execution.world.act worker (.perform effect next) =
          (.running (next ()), execution.world.perform worker effect) := rfl
      exact settle_of_act h hStatus hAct rfl fun moved hWorld hMoved => hWorld ▸ ih _ hMoved rfl
  | claim channel kind next ih =>
      let claimed := execution.world.claim channel kind worker
      have hAct : execution.world.act worker (.claim channel kind next) =
          (.running (next claimed.1), claimed.2) := rfl
      exact settle_of_act h hStatus hAct rfl fun moved hWorld hMoved => hWorld ▸ ih _ hMoved rfl
  | take channel next ih =>
      let taken := execution.world.take channel worker
      have hAct : execution.world.act worker (.take channel next) =
          (.running (next taken.1), taken.2) := rfl
      exact settle_of_act h hStatus hAct rfl fun moved hWorld hMoved => hWorld ▸ ih _ hMoved rfl
  | drain channel next ih =>
      let drained := execution.world.drain channel worker
      have hAct : execution.world.act worker (.drain channel next) =
          (.running (next drained.1), drained.2) := rfl
      exact settle_of_act h hStatus hAct rfl fun moved hWorld hMoved => hWorld ▸ ih _ hMoved rfl

/-- All that letting a worker go on can come to. -/
theorem advance_cases (execution : Execution τ M κ ε α) (worker : Nat) :
    (execution.advance worker = execution ∧ ∀ runner,
      execution.launch.threads[worker]? = some runner →
        (∃ program, runner.status = .waiting program ∧ execution.isOpen = false) ∨
          runner.status.ended = true) ∨
    ∃ runner program, execution.launch.threads[worker]? = some runner ∧
      (runner.status = .running program ∨
        runner.status = .waiting program ∧ execution.isOpen = true) ∧
      execution.advance worker =
        execution.settle worker runner (execution.world.run worker program).1
          (execution.world.run worker program).2 := by
  unfold advance
  cases hRunner : execution.launch.threads[worker]? with
  | none => exact Or.inl ⟨rfl, fun _ hNone => nomatch hNone⟩
  | some runner =>
      cases hStatus : runner.status with
      | running program =>
          refine Or.inr ⟨runner, program, rfl, Or.inl hStatus, ?_⟩
          simp only [hStatus]
      | waiting program =>
          cases hOpen : execution.isOpen with
          | true =>
              refine Or.inr ⟨runner, program, rfl, Or.inr ⟨hStatus, rfl⟩, ?_⟩
              simp only [hStatus, if_true]
          | false =>
              refine Or.inl ⟨by simp [hStatus], ?_⟩
              rintro other ⟨⟩
              exact Or.inl ⟨program, hStatus, rfl⟩
      | returned result =>
          refine Or.inl ⟨by simp only [hStatus], ?_⟩
          rintro other ⟨⟩
          exact Or.inr (by rw [hStatus]; rfl)
      | failed error =>
          refine Or.inl ⟨by simp only [hStatus], ?_⟩
          rintro other ⟨⟩
          exact Or.inr (by rw [hStatus]; rfl)

/-- To let a worker go on is to give it turns. -/
theorem advance_after (start : Nat → Except κ (Program τ M ε α)) (execution : Execution τ M κ ε α)
    (worker : Nat) : ∃ turns, execution.after start turns = execution.advance worker := by
  rcases execution.advance_cases worker with
    ⟨hSame, -⟩ | ⟨runner, program, hRunner, hRunning | ⟨hWaiting, hOpen⟩, hAdvance⟩
  · rw [hSame]
    exact ⟨[], rfl⟩
  · rw [hAdvance]
    exact settle_run start program hRunner hRunning
  · have hThread : (execution.act worker).launch.threads[worker]? =
        some (runner.moved (.running program)) := by
      rw [act_of_open hRunner hWaiting hOpen, threads_settle,
        List.getElem?_set_self (List.getElem?_eq_some_iff.mp hRunner).1]
    obtain ⟨turns, hTurns⟩ := settle_run start program hThread rfl
    refine ⟨.worker worker :: turns, ?_⟩
    change (execution.act worker).after start turns = _
    rw [hTurns, hAdvance, act_of_open hRunner hWaiting hOpen, settle_settle]
    rfl

/-- A worker that goes on as far as it can comes to its meeting or to its end. -/
theorem moved_advance (h : execution.Sound) (hWorker : worker < execution.launch.threads.length) :
    Moved worker Rests execution (execution.advance worker) := by
  rcases execution.advance_cases worker with
    ⟨hSame, hStops⟩ | ⟨runner, program, hRunner, -, hAdvance⟩
  · have hRunner := List.getElem?_eq_getElem hWorker
    rw [hSame]
    refine .refl h hRunner ?_
    rcases hStops _ hRunner with ⟨program, hWaiting, -⟩ | hEnded
    · exact Or.inl (h.met _ (List.mem_of_getElem? hRunner) program hWaiting)
    · exact Or.inr hEnded
  · rw [hAdvance]
    refine (moved_settle h hRunner _ _).weaken fun after hAfter => ?_
    obtain ⟨hStatus, -, hMet⟩ := hAfter
    rw [Rests, hStatus]
    cases hCase : (execution.world.run worker program).1 with
    | running rest => exact absurd hCase (World.run_ne_running worker program rest _)
    | waiting rest => exact Or.inl (hMet ⟨rest, hCase⟩)
    | returned result => exact Or.inr rfl
    | failed error => exact Or.inr rfl

/-- The launcher does nothing more once a launch has failed. -/
theorem after_fault {start : Nat → Except κ (Program τ M ε α)} {error : κ}
    (h : execution.launch.fault = some error) (n : Nat) :
    execution.after start (List.replicate n .launcher) = execution := by
  induction n with
  | zero => rfl
  | succ n ih =>
      have hStep : execution.step start .launcher = execution := by
        simp only [step, launchNext, Launch.next, h]
        split <;> rfl
      rw [List.replicate_succ]
      change (execution.step start .launcher).after start _ = execution
      rw [hStep, ih]

/-- To launch workers one after the other is to give the launcher turns. -/
theorem launch_after (start : Nat → Except κ (Program τ M ε α)) (n : Nat)
    (hCount : execution.launch.asked.length + n ≤ execution.count) :
    execution.after start (List.replicate n .launcher) =
      { execution with
        launch := execution.launch.go
          (fun index => (start index).map fun program => { status := .running program }) n } := by
  induction n generalizing execution with
  | zero => rfl
  | succ n ih =>
      rw [List.replicate_succ]
      change (execution.launchNext start).after start _ = _
      rw [launchNext, if_pos (by omega), Launch.go]
      cases hFault : (execution.launch.next fun index =>
          (start index).map fun program => { status := .running program }).fault with
      | some error => exact after_fault hFault n
      | none =>
          refine ih (Nat.le_trans (Nat.add_le_add_right (Launch.length_asked_next _ _) n) ?_)
          rw [Nat.add_right_comm, Nat.add_assoc]
          exact hCount

/-- The complete execution is one of those in which the turns come in any order. -/
theorem complete_after (start : Nat → Except κ (Program τ M ε α))
    (h : execution.launch.asked = []) :
    ∃ turns, execution.after start turns = execution.complete start := by
  have hLaunch : execution.after start (List.replicate execution.count .launcher) = _ :=
    launch_after start execution.count (by rw [h]; simp)
  obtain ⟨first, hFirst⟩ := foldl_after (advance_after start) _ _
  obtain ⟨second, hSecond⟩ := foldl_after (advance_after start) _ _
  refine ⟨List.replicate execution.count .launcher ++ (first ++ second), ?_⟩
  rw [after_append, hLaunch, after_append, hFirst, hSecond]
  rfl

end Execution

end Dataflow
