import Dataflow.Execution

/-! What turns do to an execution: an act of a worker moves that worker alone, the launcher launches
everyone, and the meeting stays open once it is. -/
namespace Dataflow

variable {τ M κ ε α : Type}

/-- The worker after a turn that leads to the status. -/
def Runner.moved (runner : Runner τ M ε α) (status : Status τ M ε α) : Runner τ M ε α where
  status
  met := match status with
    | .waiting _ => true
    | .running _ | .returned _ | .failed _ => runner.met

namespace Execution

theorem threads_settle (execution : Execution τ M κ ε α) (worker : Nat) (runner : Runner τ M ε α)
    (status : Status τ M ε α) (world : World τ M) :
    (execution.settle worker runner status world).launch.threads =
      execution.launch.threads.set worker (runner.moved status) :=
  rfl

/-- A worker is listed as ended when its act has ended it. -/
theorem ended_settle (execution : Execution τ M κ ε α) (worker : Nat) (runner : Runner τ M ε α)
    (status : Status τ M ε α) (world : World τ M) :
    (execution.settle worker runner status world).ended =
      if status.ended then execution.ended ++ [worker] else execution.ended :=
  rfl

def Over (execution : Execution τ M κ ε α) : Prop :=
  execution.launch.threads.length = execution.count ∧
    ∀ runner ∈ execution.launch.threads, runner.status.ended = true

instance (execution : Execution τ M κ ε α) : Decidable execution.Over :=
  inferInstanceAs (Decidable (_ ∧ _))

def results (execution : Execution τ M κ ε α) : List (Nat × α) :=
  execution.ended.filterMap fun worker => (execution.result? worker).map (worker, ·)

/-- No launch has failed, and whoever waits has come to the meeting. -/
structure Sound (execution : Execution τ M κ ε α) : Prop where
  fault : execution.launch.fault = none
  asked : execution.launch.asked.length = execution.launch.threads.length
  count : execution.launch.threads.length ≤ execution.count
  met : ∀ runner ∈ execution.launch.threads, ∀ program, runner.status = .waiting program →
    runner.met = true

def after [DecidableEq τ] (start : Nat → Except κ (Program τ M ε α)) (turns : List Turn)
    (execution : Execution τ M κ ε α) : Execution τ M κ ε α :=
  turns.foldl (step start) execution

variable {execution : Execution τ M κ ε α} {worker : Nat} {runner : Runner τ M ε α}

/-- Soundness survives whatever becomes of a worker. -/
theorem Sound.settle (h : execution.Sound) (worker : Nat) (runner : Runner τ M ε α)
    (status : Status τ M ε α) (world : World τ M) :
    (execution.settle worker runner status world).Sound where
  fault := h.fault
  asked := h.asked.trans (List.length_set).symm
  count := Nat.le_trans (Nat.le_of_eq List.length_set) h.count
  met := by
    intro other hOther program hWaiting
    rcases List.mem_or_eq_of_mem_set hOther with hOld | hNew
    · exact h.met other hOld program hWaiting
    · subst hNew
      dsimp only at hWaiting ⊢
      rw [hWaiting]

/-- As long as workers are missing, the next one is launched. -/
theorem launchNext_eq {start : Nat → Except κ (Program τ M ε α)} (h : execution.Sound)
    {program : Program τ M ε α} (hStart : start execution.launch.threads.length = .ok program)
    (hCount : execution.launch.threads.length < execution.count) :
    execution.launchNext start =
      { execution with
        launch := { execution.launch with
          asked := execution.launch.asked ++ [execution.launch.threads.length]
          threads := execution.launch.threads ++ [{ status := .running program }] } } := by
  simp only [launchNext, Launch.next, h.asked, hCount, if_true, h.fault, hStart, Except.map]

/-- With all workers there, a launch does nothing. -/
theorem launchNext_of_full {start : Nat → Except κ (Program τ M ε α)} (h : execution.Sound)
    (hCount : ¬execution.launch.threads.length < execution.count) :
    execution.launchNext start = execution := by
  rw [launchNext, h.asked, if_neg hCount]

/-- Launching keeps an execution sound. -/
theorem Sound.launchNext {start : Nat → Except κ (Program τ M ε α)} (h : execution.Sound)
    (hStart : ∀ index < execution.count, ∃ program, start index = .ok program) :
    (execution.launchNext start).Sound := by
  by_cases hCount : execution.launch.threads.length < execution.count
  · obtain ⟨program, hProgram⟩ := hStart execution.launch.threads.length hCount
    rw [launchNext_eq h hProgram hCount]
    exact {
      fault := h.fault
      asked := by simp [h.asked]
      count := by simpa [Nat.succ_le_iff] using hCount
      met := by
        intro runner hRunner program' hWaiting
        rcases List.mem_append.mp hRunner with hOld | hNew
        · exact h.met runner hOld program' hWaiting
        · rw [List.mem_singleton.mp hNew] at hWaiting
          cases hWaiting }
  · rw [launchNext_of_full h hCount]
    exact h

variable [DecidableEq τ]

/-- A worker that is running performs its next act. -/
theorem act_of_running {program : Program τ M ε α}
    (h : execution.launch.threads[worker]? = some runner)
    (hStatus : runner.status = .running program) :
    execution.act worker =
      execution.settle worker runner (execution.world.act worker program).1
        (execution.world.act worker program).2 := by
  simp only [act, h, hStatus]

/-- A worker that waits goes on once the meeting is open. -/
theorem act_of_open {program : Program τ M ε α}
    (h : execution.launch.threads[worker]? = some runner)
    (hStatus : runner.status = .waiting program)
    (hOpen : execution.isOpen = true) :
    execution.act worker =
      execution.settle worker runner (.running program) execution.world := by
  simp only [act, h, hStatus, hOpen, if_true]

/-- As long as the meeting is shut a worker waits. -/
theorem act_of_shut {program : Program τ M ε α}
    (h : execution.launch.threads[worker]? = some runner)
    (hStatus : runner.status = .waiting program)
    (hShut : execution.isOpen = false) : execution.act worker = execution := by
  simp [act, h, hStatus, hShut]

theorem act_of_none (h : execution.launch.threads[worker]? = none) :
    execution.act worker = execution := by
  simp only [act, h]

/-- A worker that has ended has no more turns. -/
theorem act_of_ended (h : execution.launch.threads[worker]? = some runner)
    (hStatus : runner.status.ended = true) : execution.act worker = execution := by
  simp only [act, h]
  cases hCase : runner.status with
  | running program => rw [hCase] at hStatus; cases hStatus
  | waiting program => rw [hCase] at hStatus; cases hStatus
  | returned result => rfl
  | failed error => rfl

/-- All that an act of a worker can come to. -/
theorem act_cases (execution : Execution τ M κ ε α) (worker : Nat) :
    execution.act worker = execution ∨
    ∃ runner, execution.launch.threads[worker]? = some runner ∧
      ((∃ program, runner.status = .running program ∧ execution.act worker =
          execution.settle worker runner (execution.world.act worker program).1
            (execution.world.act worker program).2) ∨
        ∃ program, runner.status = .waiting program ∧ execution.isOpen = true ∧
          execution.act worker =
            execution.settle worker runner (.running program) execution.world) := by
  cases hRunner : execution.launch.threads[worker]? with
  | none => exact Or.inl (act_of_none hRunner)
  | some runner =>
      cases hStatus : runner.status with
      | running program =>
          exact Or.inr ⟨runner, rfl, Or.inl ⟨program, hStatus, act_of_running hRunner hStatus⟩⟩
      | waiting program =>
          cases hOpen : execution.isOpen with
          | true =>
              exact Or.inr ⟨runner, rfl,
                Or.inr ⟨program, hStatus, rfl, act_of_open hRunner hStatus hOpen⟩⟩
          | false => exact Or.inl (act_of_shut hRunner hStatus hOpen)
      | returned result => exact Or.inl (act_of_ended hRunner (by rw [hStatus]; rfl))
      | failed error => exact Or.inl (act_of_ended hRunner (by rw [hStatus]; rfl))

/-- Every act keeps an execution sound. -/
theorem Sound.act (h : execution.Sound) (worker : Nat) : (execution.act worker).Sound := by
  rcases execution.act_cases worker with
    hSame | ⟨runner, -, ⟨program, -, hAct⟩ | ⟨program, -, -, hAct⟩⟩
  · rw [hSame]
    exact h
  · rw [hAct]
    exact h.settle worker runner _ _
  · rw [hAct]
    exact h.settle worker runner _ _

/-- Every turn keeps an execution sound. -/
theorem Sound.step {start : Nat → Except κ (Program τ M ε α)} (h : execution.Sound)
    (hStart : ∀ index < execution.count, ∃ program, start index = .ok program) (turn : Turn) :
    (execution.step start turn).Sound := by
  cases turn with
  | launcher => exact h.launchNext hStart
  | worker index => exact h.act index

variable {start : Nat → Except κ (Program τ M ε α)}

/-- With enough turns the launcher launches everyone. -/
theorem launched (hStart : ∀ index, ∃ program, start index = .ok program) (h : execution.Sound) :
    let reached := execution.after start
      (List.replicate (execution.count - execution.launch.threads.length) .launcher)
    reached.Sound ∧ reached.launch.threads.length = reached.count := by
  induction hMissing : execution.count - execution.launch.threads.length
      generalizing execution with
  | zero =>
      have hCount := h.count
      exact ⟨h, by change execution.launch.threads.length = execution.count; omega⟩
  | succ missing ih =>
      have hCount : execution.launch.threads.length < execution.count := by omega
      obtain ⟨program, hProgram⟩ := hStart execution.launch.threads.length
      refine ih (h.launchNext fun index _ => hStart index) ?_
      change (execution.launchNext start).count - (execution.launchNext start).launch.threads.length
        = missing
      rw [launchNext_eq h hProgram hCount, List.length_append, List.length_singleton]
      dsimp only
      omega

/-- Of the workers only one has moved on, and it stands as the property says. -/
structure Shifted (worker : Nat) (P : Runner τ M ε α → Prop) (before after : Execution τ M κ ε α) :
    Prop where
  count : after.count = before.count
  length : after.launch.threads.length = before.launch.threads.length
  others : ∀ other, other ≠ worker → after.launch.threads[other]? = before.launch.threads[other]?
  here : ∃ runner, after.launch.threads[worker]? = some runner ∧ P runner

/-- Only the worker has moved on, and the execution is sound. -/
structure Moved (worker : Nat) (P : Runner τ M ε α → Prop) (before after : Execution τ M κ ε α) :
    Prop extends Shifted worker P before after where
  sound : after.Sound

omit [DecidableEq τ] in
/-- What the worker has moved on to last is what counts. -/
theorem Shifted.trans {P Q : Runner τ M ε α → Prop} {before between after : Execution τ M κ ε α}
    (h : Shifted worker P before between) (h' : Shifted worker Q between after) :
    Shifted worker Q before after where
  count := h'.count.trans h.count
  length := h'.length.trans h.length
  others other hOther := (h'.others other hOther).trans (h.others other hOther)
  here := h'.here

omit [DecidableEq τ] in
theorem Moved.trans {P Q : Runner τ M ε α → Prop} {before between after : Execution τ M κ ε α}
    (h : Moved worker P before between) (h' : Moved worker Q between after) :
    Moved worker Q before after where
  toShifted := h.toShifted.trans h'.toShifted
  sound := h'.sound

omit [DecidableEq τ] in
/-- A worker that stands as it should need not move. -/
theorem Moved.refl {P : Runner τ M ε α → Prop} (h : execution.Sound)
    (hRunner : execution.launch.threads[worker]? = some runner) (hP : P runner) :
    Moved worker P execution execution where
  sound := h
  count := rfl
  length := rfl
  others _ _ := rfl
  here := ⟨runner, hRunner, hP⟩

omit [DecidableEq τ] in
theorem Moved.weaken {P Q : Runner τ M ε α → Prop} {before after : Execution τ M κ ε α}
    (h : Moved worker P before after) (hWeaker : ∀ runner, P runner → Q runner) :
    Moved worker Q before after where
  sound := h.sound
  count := h.count
  length := h.length
  others := h.others
  here := h.here.imp fun runner hRunner => ⟨hRunner.1, hWeaker runner hRunner.2⟩

omit [DecidableEq τ] in
/-- After an act nothing but the status of its worker is new, and a worker that waits has met. -/
theorem moved_settle (h : execution.Sound)
    (hRunner : execution.launch.threads[worker]? = some runner) (status : Status τ M ε α)
    (world : World τ M) :
    Moved worker (fun after => after.status = status ∧ (runner.met = true → after.met = true) ∧
        ((∃ program, status = .waiting program) → after.met = true))
      execution (execution.settle worker runner status world) where
  sound := h.settle worker runner status world
  count := rfl
  length := List.length_set
  others other hOther := List.getElem?_set_ne (Ne.symm hOther)
  here := by
    have hLength : worker < execution.launch.threads.length :=
      (List.getElem?_eq_some_iff.mp hRunner).1
    refine ⟨_, List.getElem?_set_self hLength, rfl, ?_, ?_⟩
    · intro hMet
      cases status <;> first | exact hMet | rfl
    · rintro ⟨program, hWaiting⟩
      rw [hWaiting]

/-- The worker has come to its meeting or to its end. -/
def Rests (runner : Runner τ M ε α) : Prop := runner.met = true ∨ runner.status.ended = true

omit [DecidableEq τ] in
/-- The meeting is open when all workers are there and each of them rests. -/
theorem isOpen_iff : execution.isOpen = true ↔
    execution.launch.threads.length = execution.count ∧
      ∀ runner ∈ execution.launch.threads, Rests runner := by
  simp only [isOpen, Bool.and_eq_true, beq_iff_eq, List.all_eq_true, Bool.or_eq_true, Rests]

omit [DecidableEq τ] in
/-- The meeting stays open as long as the worker that moves on still rests. -/
theorem Moved.isOpen {before after : Execution τ M κ ε α} (h : Moved worker Rests before after)
    (hOpen : before.isOpen = true) : after.isOpen = true := by
  obtain ⟨hLength, hRests⟩ := isOpen_iff.mp hOpen
  refine isOpen_iff.mpr ⟨h.length.trans (hLength.trans h.count.symm), fun runner hRunner => ?_⟩
  obtain ⟨other, hOther⟩ := List.mem_iff_getElem?.mp hRunner
  by_cases hWorker : other = worker
  · obtain ⟨found, hFound, hFoundRests⟩ := h.here
    rw [hWorker, hFound, Option.some.injEq] at hOther
    exact hOther ▸ hFoundRests
  · rw [h.others other hWorker] at hOther
    exact hRests runner (List.mem_of_getElem? hOther)

/-- Turns may be taken in two parts. -/
theorem after_append (start : Nat → Except κ (Program τ M ε α)) (turns more : List Turn)
    (execution : Execution τ M κ ε α) :
    execution.after start (turns ++ more) = (execution.after start turns).after start more :=
  List.foldl_append

/-- What every turn keeps is kept by all of them. -/
theorem after_of_step {start : Nat → Except κ (Program τ M ε α)} {P : Execution τ M κ ε α → Prop}
    (hStep : ∀ reached turn, P reached → P (reached.step start turn)) (h : P execution)
    (turns : List Turn) : P (execution.after start turns) :=
  List.foldlRecOn turns (step start) h fun reached hReached turn _ => hStep reached turn hReached

/-- If every worker goes on by turns, all together do. -/
theorem foldl_after {start : Nat → Except κ (Program τ M ε α)}
    {go : Execution τ M κ ε α → Nat → Execution τ M κ ε α}
    (hGo : ∀ reached worker, ∃ turns, reached.after start turns = go reached worker)
    (workers : List Nat) (execution : Execution τ M κ ε α) :
    ∃ turns, execution.after start turns = workers.foldl go execution := by
  induction workers generalizing execution with
  | nil => exact ⟨[], rfl⟩
  | cons worker workers ih =>
      obtain ⟨turns, hTurns⟩ := hGo execution worker
      obtain ⟨more, hMore⟩ := ih (go execution worker)
      refine ⟨turns ++ more, ?_⟩
      rw [after_append, hTurns, hMore]
      rfl

omit [DecidableEq τ] in
/-- What one worker comes to without moving the others, all come to when each has gone on once. -/
theorem forall_of_shift {go : Execution τ M κ ε α → Nat → Execution τ M κ ε α}
    {I : Execution τ M κ ε α → Prop} {P : Runner τ M ε α → Prop}
    (hGo : ∀ reached worker, I reached → worker < reached.launch.threads.length →
      I (go reached worker) ∧ Shifted worker P reached (go reached worker))
    (h : I execution) :
    let final := (List.range execution.launch.threads.length).foldl go execution
    I final ∧ final.count = execution.count ∧
      final.launch.threads.length = execution.launch.threads.length ∧
      ∀ runner ∈ final.launch.threads, P runner := by
  have hUpTo (n : Nat) (hn : n ≤ execution.launch.threads.length) :
      let reached := (List.range n).foldl go execution
      I reached ∧ reached.count = execution.count ∧
        reached.launch.threads.length = execution.launch.threads.length ∧
        ∀ worker < n, ∃ runner, reached.launch.threads[worker]? = some runner ∧ P runner := by
    induction n with
    | zero => exact ⟨h, rfl, rfl, fun worker hWorker => absurd hWorker (Nat.not_lt_zero _)⟩
    | succ n ih =>
        obtain ⟨hI, hCount, hLength, hBefore⟩ := ih (Nat.le_of_succ_le hn)
        rw [List.range_succ, List.foldl_append]
        obtain ⟨hNext, hMoved⟩ := hGo _ n hI (by omega)
        refine ⟨hNext, hMoved.count.trans hCount, hMoved.length.trans hLength, ?_⟩
        intro worker hWorker
        by_cases hLast : worker = n
        · exact hLast ▸ hMoved.here
        · have hSame := hMoved.others worker hLast
          exact hSame ▸ hBefore worker (by omega)
  obtain ⟨hI, hCount, hLength, hAll⟩ := hUpTo _ (Nat.le_refl _)
  refine ⟨hI, hCount, hLength, fun runner hRunner => ?_⟩
  obtain ⟨worker, hWorker⟩ := List.mem_iff_getElem?.mp hRunner
  obtain ⟨found, hFound, hP⟩ := hAll worker (by
    rw [← hLength]
    exact (List.getElem?_eq_some_iff.mp hWorker).1)
  rw [hWorker, Option.some.injEq] at hFound
  exact hFound ▸ hP

end Execution

end Dataflow
