import Dataflow.Proofs.Execution.Turns
import Mathlib.Data.List.Basic

/-! What the workers of an execution have done. A deed is one act of a worker, with the world as the
act found it. In whatever order the turns come, the deeds follow one another in one world, which all
workers share, and the deeds of each worker are one run of its program from the start. -/
namespace Dataflow

variable {τ M κ ε α : Type}

/-! ### Acts and the log -/

/-- Of a logger only the lines have changed, and those written before are still there. -/
structure Log.Logger.Extended (before after : Log.Logger) : Prop where
  level : after.level = before.level
  attached : after.attached = before.attached
  lines : before.lines.toList <+: after.lines.toList

theorem Log.Logger.Extended.refl (logger : Log.Logger) : logger.Extended logger :=
  ⟨rfl, rfl, List.prefix_rfl⟩

/-- Logging only adds lines. -/
theorem Log.Logger.extended_log (logger : Log.Logger) (level : Level) (worker channel : UInt32)
    (text : Bytes) : logger.Extended (logger.log level worker channel text) := by
  unfold Log.Logger.log
  split
  · exact ⟨rfl, rfl, by simp⟩
  · exact .refl logger

/-- No effect takes a line out of the log. -/
theorem World.extended_perform (world : World τ M) (worker : Nat) (effect : Effect M) :
    world.journal.logger.Extended (world.perform worker effect).journal.logger := by
  cases effect with
  | log level channel text => exact Log.Logger.extended_log _ level _ channel text
  | note sink event =>
      cases sink with
      | memory => exact .refl _
      | text index => exact Log.Logger.extended_log _ .trace index event.channel event.describe
  | deliver channel target message => exact .refl _

variable [DecidableEq τ]

/-- Whatever a worker does, it can only add to the log. -/
theorem World.extended_act (world : World τ M) (worker : Nat) (program : Program τ M ε α) :
    world.journal.logger.Extended (world.act worker program).2.journal.logger := by
  cases program with
  | finish result => exact .refl _
  | fail error => exact Log.Logger.extended_log _ .error _ 0 _
  | perform effect next => exact world.extended_perform worker effect
  | claim channel kind next =>
      simp only [World.act, World.claim]
      split <;> exact .refl _
  | take channel next => exact .refl _
  | drain channel next => exact .refl _
  | meet next => exact .refl _

/-! ### Deeds -/

def failureLine (worker : Nat) : Log.Line where
  level := .error
  worker := UInt32.ofNat worker
  channel := 0
  text := Bytes.ascii "worker failed"

/-- One act of a worker on what the workers share. -/
structure Deed (τ M ε α : Type) where
  worker : Nat
  /-- The world as the act found it. -/
  world : World τ M
  program : Program τ M ε α

namespace Deed

def status (deed : Deed τ M ε α) : Status τ M ε α := (deed.world.act deed.worker deed.program).1

def left (deed : Deed τ M ε α) : World τ M := (deed.world.act deed.worker deed.program).2

def error? (deed : Deed τ M ε α) : Option ε := deed.status.error?

def lines (deed : Deed τ M ε α) : List Log.Line :=
  deed.left.journal.logger.lines.toList.drop deed.world.journal.logger.lines.size

/-- A deed is a failure if its program was one. -/
theorem error?_eq_some_iff {deed : Deed τ M ε α} {error : ε} :
    deed.error? = some error ↔ deed.program = .fail error := by
  obtain ⟨worker, world, program⟩ := deed
  cases program with
  | fail error' => simp [error?, status, World.act, Status.error?]
  | _ => simp [error?, status, World.act, Status.error?]

/-- The lines of a worker that fails: one at error level, if the log takes it. -/
theorem lines_of_error {deed : Deed τ M ε α} {error : ε} (h : deed.error? = some error) :
    deed.lines = if deed.world.journal.logger.level.enables .error
        && deed.world.journal.logger.attached then [failureLine deed.worker] else [] := by
  have hLeft : deed.left = deed.world.logFailure deed.worker := by
    rw [left, error?_eq_some_iff.mp h]
    rfl
  have hClip : Log.clip (Bytes.ascii "worker failed") = Bytes.ascii "worker failed" := by decide
  rw [lines, hLeft]
  simp only [World.logFailure, World.log, Journal.log, Log.Logger.log, hClip]
  split <;> simp [failureLine, ← Array.length_toList]

/-- Each deed finds the world that the one before it left. -/
inductive Chain (world : World τ M) : List (Deed τ M ε α) → World τ M → Prop where
  | nil : Chain world [] world
  | snoc {deeds : List (Deed τ M ε α)} {deed : Deed τ M ε α}
      (earlier : Chain world deeds deed.world) : Chain world (deeds ++ [deed]) deed.left

/-- The log is what the deeds wrote, one after the other. -/
theorem Chain.logger {world world' : World τ M} {deeds : List (Deed τ M ε α)}
    (h : Chain world deeds world') :
    world'.journal.logger.level = world.journal.logger.level ∧
    world'.journal.logger.attached = world.journal.logger.attached ∧
    world'.journal.logger.lines.toList =
      world.journal.logger.lines.toList ++ deeds.flatMap lines := by
  induction h with
  | nil => simp
  | @snoc deeds deed earlier ih =>
      obtain ⟨hLevel, hAttached, hLines⟩ := ih
      have hExtended : deed.world.journal.logger.Extended deed.left.journal.logger :=
        deed.world.extended_act deed.worker deed.program
      have hWritten : deed.left.journal.logger.lines.toList =
          deed.world.journal.logger.lines.toList ++ deed.lines := by
        rw [lines, ← Array.length_toList]
        exact (List.prefix_iff_eq_append.mp hExtended.lines).symm
      refine ⟨hExtended.level.trans hLevel, hExtended.attached.trans hAttached, ?_⟩
      rw [hWritten, hLines, List.flatMap_append, List.flatMap_singleton, List.append_assoc]

/-- No deed changes what the log takes. -/
theorem Chain.logger_of_mem {world world' : World τ M} {deeds : List (Deed τ M ε α)}
    (h : Chain world deeds world') {deed : Deed τ M ε α} (hDeed : deed ∈ deeds) :
    deed.world.journal.logger.level = world.journal.logger.level ∧
    deed.world.journal.logger.attached = world.journal.logger.attached := by
  induction h with
  | nil => cases hDeed
  | @snoc deeds last earlier ih =>
      rcases List.mem_append.mp hDeed with hEarlier | hLast
      · exact ih hEarlier
      · rw [List.mem_singleton.mp hLast]
        exact ⟨earlier.logger.1, earlier.logger.2.1⟩

end Deed

/-- The deeds are those of one worker that runs the program from its start and now stands so. -/
inductive Program.Ran (program : Program τ M ε α) :
    List (Deed τ M ε α) → Status τ M ε α → Prop where
  | start : Ran program [] (.running program)
  | act {deeds : List (Deed τ M ε α)} {deed : Deed τ M ε α}
      (earlier : Ran program deeds (.running deed.program)) :
      Ran program (deeds ++ [deed]) deed.status
  | resume {deeds : List (Deed τ M ε α)} {rest : Program τ M ε α}
      (earlier : Ran program deeds (.waiting rest)) : Ran program deeds (.running rest)

namespace Program.Ran

variable {program : Program τ M ε α} {deeds : List (Deed τ M ε α)} {status : Status τ M ε α}

/-- A run fails once, if at all, and with the error at which its worker then stands. -/
theorem errors (h : program.Ran deeds status) :
    deeds.filterMap Deed.error? = status.error?.toList := by
  induction h with
  | start => rfl
  | @act deeds deed earlier ih =>
      have hLast : [deed].filterMap Deed.error? = deed.status.error?.toList := by
        cases hError : deed.status.error? <;> simp [Deed.error?, hError]
      rw [List.filterMap_append, ih, hLast]
      rfl
  | resume earlier ih => exact ih

/-- The deed that ended a worker tells where the worker stands. -/
theorem status_of_ended (h : program.Ran deeds status) {deed : Deed τ M ε α} (hDeed : deed ∈ deeds)
    (hEnded : deed.status.ended = true) : status = deed.status := by
  induction h with
  | start => cases hDeed
  | act earlier ih =>
      rcases List.mem_append.mp hDeed with hEarlier | hLast
      · rw [← ih hEarlier] at hEnded
        cases hEnded
      · rw [List.mem_singleton.mp hLast]
  | resume earlier ih =>
      rw [← ih hDeed] at hEnded
      cases hEnded

end Program.Ran

namespace Execution

/-- The deed that a turn comes to. A worker that waits or has ended does nothing. -/
def deed? (execution : Execution τ M κ ε α) : Turn → Option (Deed τ M ε α)
  | .launcher => none
  | .worker index =>
    match execution.status? index with
    | some (.running program) => some { worker := index, world := execution.world, program }
    | _ => none

def deeds (start : Nat → Except κ (Program τ M ε α)) :
    List Turn → Execution τ M κ ε α → List (Deed τ M ε α)
  | [], _ => []
  | turn :: turns, execution =>
    (execution.deed? turn).toList ++ deeds start turns (execution.step start turn)

/-- All that a turn can come to, with the deed that is done at it. -/
inductive Goes (start : Nat → Except κ (Program τ M ε α)) (execution : Execution τ M κ ε α) :
    Execution τ M κ ε α → Option (Deed τ M ε α) → Prop where
  | nowhere : Goes start execution execution none
  | launched {program : Program τ M ε α} (fault : execution.launch.fault = none)
      (more : execution.launch.asked.length < execution.count)
      (started : start execution.launch.asked.length = .ok program) :
      Goes start execution
        { execution with
          launch := { execution.launch with
            asked := execution.launch.asked ++ [execution.launch.asked.length]
            threads := execution.launch.threads ++ [{ status := .running program }] } } none
  | refused {error : κ} (fault : execution.launch.fault = none)
      (more : execution.launch.asked.length < execution.count)
      (started : start execution.launch.asked.length = .error error) :
      Goes start execution
        { execution with
          launch := { execution.launch with
            asked := execution.launch.asked ++ [execution.launch.asked.length]
            fault := some error } } none
  | acted {runner : Runner τ M ε α} (deed : Deed τ M ε α) (world : deed.world = execution.world)
      (here : execution.launch.threads[deed.worker]? = some runner)
      (running : runner.status = .running deed.program) :
      Goes start execution (execution.settle deed.worker runner deed.status deed.left) (some deed)
  | resumed {worker : Nat} {runner : Runner τ M ε α} {program : Program τ M ε α}
      (here : execution.launch.threads[worker]? = some runner)
      (waiting : runner.status = .waiting program) (isOpen : execution.isOpen = true) :
      Goes start execution
        (execution.settle worker runner (.running program) execution.world) none

variable {start : Nat → Except κ (Program τ M ε α)}

/-- The launcher launches one worker, is refused one, or does nothing. -/
theorem goes_launchNext (start : Nat → Except κ (Program τ M ε α))
    (execution : Execution τ M κ ε α) : Goes start execution (execution.launchNext start) none := by
  by_cases hMore : execution.launch.asked.length < execution.count
  · cases hFault : execution.launch.fault with
    | some error =>
        have hSame : execution.launchNext start = execution := by
          simp only [launchNext, Launch.next, hFault, if_pos hMore]
        rw [hSame]
        exact .nowhere
    | none =>
        cases hStart : start execution.launch.asked.length with
        | ok program =>
            have hNext := Goes.launched hFault hMore hStart
            simpa only [launchNext, Launch.next, hMore, hFault, hStart, Except.map, if_true]
              using hNext
        | error error =>
            have hNext := Goes.refused hFault hMore hStart
            simpa only [launchNext, Launch.next, hMore, hFault, hStart, Except.map, if_true]
              using hNext
  · rw [launchNext, if_neg hMore]
    exact .nowhere

/-- A turn of a worker is one of the ways in which an execution goes on. -/
theorem goes_act (start : Nat → Except κ (Program τ M ε α)) (execution : Execution τ M κ ε α)
    (worker : Nat) :
    Goes start execution (execution.act worker) (execution.deed? (.worker worker)) := by
  simp only [deed?, status?]
  cases hRunner : execution.launch.threads[worker]? with
  | none =>
      rw [act_of_none hRunner]
      exact .nowhere
  | some runner =>
      cases hStatus : runner.status with
      | running program =>
          rw [act_of_running hRunner hStatus]
          simp only [Option.map_some, hStatus]
          exact .acted { worker, world := execution.world, program } rfl hRunner hStatus
      | waiting program =>
          simp only [Option.map_some, hStatus]
          cases hOpen : execution.isOpen with
          | true =>
              rw [act_of_open hRunner hStatus hOpen]
              exact .resumed hRunner hStatus hOpen
          | false =>
              rw [act_of_shut hRunner hStatus hOpen]
              exact .nowhere
      | returned result =>
          simp only [Option.map_some, hStatus]
          rw [act_of_ended hRunner (by rw [hStatus]; rfl)]
          exact .nowhere
      | failed error =>
          simp only [Option.map_some, hStatus]
          rw [act_of_ended hRunner (by rw [hStatus]; rfl)]
          exact .nowhere

/-- So is every turn. -/
theorem goes_step (start : Nat → Except κ (Program τ M ε α)) (execution : Execution τ M κ ε α)
    (turn : Turn) : Goes start execution (execution.step start turn) (execution.deed? turn) := by
  cases turn with
  | launcher => exact execution.goes_launchNext start
  | worker index => exact execution.goes_act start index

/-! ### The account of an execution -/

/-- Launches are asked for from the first worker on. Each gives a thread, but for the last one if
it fails. -/
structure Orderly (start : Nat → Except κ (Program τ M ε α)) (execution : Execution τ M κ ε α) :
    Prop where
  asked : execution.launch.asked = List.range execution.launch.asked.length
  count : execution.launch.asked.length ≤ execution.count
  sound : execution.launch.fault = none →
    execution.launch.asked.length = execution.launch.threads.length
  failed : ∀ error, execution.launch.fault = some error →
    execution.launch.asked.length = execution.launch.threads.length + 1 ∧
      start execution.launch.threads.length = .error error

/-- How an execution that began in the world has come to where it stands, by these deeds. -/
structure Account (start : Nat → Except κ (Program τ M ε α)) (world : World τ M)
    (deeds : List (Deed τ M ε α)) (execution : Execution τ M κ ε α) : Prop where
  orderly : execution.Orderly start
  chain : Deed.Chain world deeds execution.world
  ran : ∀ worker runner, execution.launch.threads[worker]? = some runner →
    ∃ program, start worker = .ok program ∧
      program.Ran (deeds.filter (·.worker = worker)) runner.status
  launched : ∀ deed ∈ deeds, deed.worker < execution.launch.threads.length
  ended : execution.ended = (deeds.filter (·.status.ended)).map (·.worker)

/-- Before any turn there is nothing to account for. -/
theorem Account.initial (start : Nat → Except κ (Program τ M ε α)) (world : World τ M)
    (count : Nat) : Account start world [] { world, count : Execution τ M κ ε α } where
  orderly := {
    asked := rfl
    count := Nat.zero_le _
    sound := fun _ => rfl
    failed := fun _ hFault => nomatch hFault }
  chain := .nil
  ran := fun _ _ hRunner => nomatch hRunner
  launched := fun _ hDeed => nomatch hDeed
  ended := rfl

variable {world : World τ M} {deeds : List (Deed τ M ε α)} {execution : Execution τ M κ ε α}

omit [DecidableEq τ] in
theorem Orderly.settle (h : execution.Orderly start) (worker : Nat) (runner : Runner τ M ε α)
    (status : Status τ M ε α) (world : World τ M) :
    (execution.settle worker runner status world).Orderly start where
  asked := h.asked
  count := h.count
  sound := fun hFault => (h.sound hFault).trans List.length_set.symm
  failed := fun error hFault => by
    rw [threads_settle, List.length_set]
    exact h.failed error hFault

/-- An account goes on with the deed of a worker that is running. -/
theorem Account.acted (h : Account start world deeds execution) {deed : Deed τ M ε α}
    {runner : Runner τ M ε α} (hWorld : deed.world = execution.world)
    (hRunner : execution.launch.threads[deed.worker]? = some runner)
    (hStatus : runner.status = .running deed.program) :
    Account start world (deeds ++ [deed])
      (execution.settle deed.worker runner deed.status deed.left) where
  orderly := h.orderly.settle _ _ _ _
  chain := .snoc (hWorld ▸ h.chain)
  ran := by
    intro worker runner' hRunner'
    rw [threads_settle] at hRunner'
    by_cases hWorker : deed.worker = worker
    · subst hWorker
      rw [List.getElem?_set_self (List.getElem?_eq_some_iff.mp hRunner).1] at hRunner'
      cases hRunner'
      obtain ⟨program, hStart, hRan⟩ := h.ran _ runner hRunner
      refine ⟨program, hStart, ?_⟩
      rw [List.filter_append, List.filter_cons_of_pos (by simp), List.filter_nil]
      rw [hStatus] at hRan
      exact hRan.act
    · rw [List.getElem?_set_ne hWorker] at hRunner'
      rw [List.filter_append, List.filter_cons_of_neg (by simpa using hWorker), List.filter_nil,
        List.append_nil]
      exact h.ran worker runner' hRunner'
  launched := by
    intro other hOther
    rw [threads_settle, List.length_set]
    rcases List.mem_append.mp hOther with hEarlier | hLast
    · exact h.launched other hEarlier
    · rw [List.mem_singleton.mp hLast]
      exact (List.getElem?_eq_some_iff.mp hRunner).1
  ended := by
    rw [ended_settle, h.ended, List.filter_append]
    cases hEnded : deed.status.ended with
    | true => simp [hEnded]
    | false => simp [hEnded]

/-- A worker that goes on after its meeting does nothing by that. -/
theorem Account.resumed (h : Account start world deeds execution) {worker : Nat}
    {runner : Runner τ M ε α} {program : Program τ M ε α}
    (hRunner : execution.launch.threads[worker]? = some runner)
    (hStatus : runner.status = .waiting program) :
    Account start world deeds
      (execution.settle worker runner (.running program) execution.world) where
  orderly := h.orderly.settle _ _ _ _
  chain := h.chain
  ran := by
    intro other runner' hRunner'
    rw [threads_settle] at hRunner'
    by_cases hOther : worker = other
    · subst hOther
      rw [List.getElem?_set_self (List.getElem?_eq_some_iff.mp hRunner).1] at hRunner'
      cases hRunner'
      obtain ⟨whole, hStart, hRan⟩ := h.ran _ runner hRunner
      rw [hStatus] at hRan
      exact ⟨whole, hStart, hRan.resume⟩
    · rw [List.getElem?_set_ne hOther] at hRunner'
      exact h.ran other runner' hRunner'
  launched := fun deed hDeed => by
    rw [threads_settle, List.length_set]
    exact h.launched deed hDeed
  ended := h.ended

/-- Launching a worker adds no deed to an account. -/
theorem Account.launchedNext (h : Account start world deeds execution) {program : Program τ M ε α}
    (hFault : execution.launch.fault = none)
    (hMore : execution.launch.asked.length < execution.count)
    (hStart : start execution.launch.asked.length = .ok program) :
    Account start world deeds
      { execution with
        launch := { execution.launch with
          asked := execution.launch.asked ++ [execution.launch.asked.length]
          threads := execution.launch.threads ++ [{ status := .running program }] } } where
  orderly := {
    asked := by
      dsimp only
      rw [List.length_append, List.length_singleton, List.range_succ, ← h.orderly.asked]
    count := by
      rw [List.length_append, List.length_singleton]
      exact hMore
    sound := fun _ => by simp [h.orderly.sound hFault]
    failed := fun error hFault' => nomatch hFault.symm.trans hFault' }
  chain := h.chain
  ran := by
    intro worker runner hRunner
    by_cases hOld : worker < execution.launch.threads.length
    · rw [List.getElem?_append_left hOld] at hRunner
      exact h.ran worker runner hRunner
    · have hNew : worker = execution.launch.threads.length := by
        have hLength := (List.getElem?_eq_some_iff.mp hRunner).1
        rw [List.length_append, List.length_singleton] at hLength
        omega
      subst hNew
      rw [List.getElem?_concat_length] at hRunner
      cases hRunner
      rw [h.orderly.sound hFault] at hStart
      refine ⟨program, hStart, ?_⟩
      -- whoever is only launched now has done nothing yet
      have hNone : deeds.filter (·.worker = execution.launch.threads.length) = [] :=
        List.filter_eq_nil_iff.mpr fun deed hDeed => by
          have hEarlier := h.launched deed hDeed
          simp only [decide_eq_true_eq]
          omega
      rw [hNone]
      exact .start
  launched := fun deed hDeed => by
    have hOld := h.launched deed hDeed
    simp only [List.length_append, List.length_singleton]
    omega
  ended := h.ended

/-- Nor does a launch that is refused. -/
theorem Account.refused (h : Account start world deeds execution) {error : κ}
    (hFault : execution.launch.fault = none)
    (hMore : execution.launch.asked.length < execution.count)
    (hStart : start execution.launch.asked.length = .error error) :
    Account start world deeds
      { execution with
        launch := { execution.launch with
          asked := execution.launch.asked ++ [execution.launch.asked.length]
          fault := some error } } where
  orderly := {
    asked := by
      dsimp only
      rw [List.length_append, List.length_singleton, List.range_succ, ← h.orderly.asked]
    count := by
      rw [List.length_append, List.length_singleton]
      exact hMore
    sound := fun hNone => nomatch hNone
    failed := by
      rintro _ ⟨⟩
      rw [h.orderly.sound hFault] at hStart
      refine ⟨?_, hStart⟩
      rw [List.length_append, List.length_singleton, h.orderly.sound hFault] }
  chain := h.chain
  ran := h.ran
  launched := h.launched
  ended := h.ended

/-- One turn keeps the account. -/
theorem Account.goes (h : Account start world deeds execution) {next : Execution τ M κ ε α}
    {deed? : Option (Deed τ M ε α)} (hGoes : Goes start execution next deed?) :
    Account start world (deeds ++ deed?.toList) next := by
  cases hGoes with
  | nowhere => simpa using h
  | launched fault more started => simpa using h.launchedNext fault more started
  | refused fault more started => simpa using h.refused fault more started
  | acted deed world here running => exact h.acted world here running
  | resumed here waiting isOpen => simpa using h.resumed here waiting

/-- Whatever turns are taken, the account is kept by the deeds that they come to. -/
theorem Account.after (h : Account start world deeds execution) (turns : List Turn) :
    Account start world (deeds ++ execution.deeds start turns) (execution.after start turns) := by
  induction turns generalizing deeds execution with
  | nil => simpa [Execution.deeds, Execution.after] using h
  | cons turn turns ih =>
      have hRest := ih (h.goes (execution.goes_step start turn))
      rw [List.append_assoc] at hRest
      exact hRest

/-! ### What the account tells -/

/-- Where a worker that has been launched stands, and by which deeds it has come there. -/
theorem Account.errors (h : Account start world deeds execution) {worker : Nat}
    {status : Status τ M ε α} (hStatus : execution.status? worker = some status) :
    (deeds.filter (·.worker = worker)).filterMap Deed.error? = status.error?.toList := by
  obtain ⟨runner, hRunner, rfl⟩ := Option.map_eq_some_iff.mp hStatus
  obtain ⟨program, -, hRan⟩ := h.ran worker runner hRunner
  exact hRan.errors

/-- The worker of a deed that ended it still stands as the deed left it. -/
theorem Account.status_of_ended (h : Account start world deeds execution) {deed : Deed τ M ε α}
    (hDeed : deed ∈ deeds) (hEnded : deed.status.ended = true) :
    execution.status? deed.worker = some deed.status := by
  have hRunner := List.getElem?_eq_getElem (h.launched deed hDeed)
  obtain ⟨program, -, hRan⟩ := h.ran _ _ hRunner
  have hOwn : deed ∈ deeds.filter (·.worker = deed.worker) :=
    List.mem_filter.mpr ⟨hDeed, decide_eq_true rfl⟩
  rw [status?, hRunner, Option.map_some, hRan.status_of_ended hOwn hEnded]

/-- Of the errors of all workers, the first is that of the first deed that failed. -/
theorem Account.firstError? (h : Account start world deeds execution) :
    execution.firstError? = deeds.findSome? Deed.error? := by
  rw [Execution.firstError?, h.ended, List.findSome?_map, ← List.head?_filterMap,
    ← List.head?_filterMap, List.filterMap_filter]
  refine congrArg List.head? (List.filterMap_congr fun deed hDeed => ?_)
  cases hEnded : deed.status.ended with
  | true =>
      rw [if_pos rfl, Function.comp_apply, h.status_of_ended hDeed hEnded]
      rfl
  | false =>
      rw [if_neg Bool.false_ne_true, Deed.error?]
      cases hStatus : deed.status with
      | running rest => rfl
      | waiting rest => rfl
      | returned result => rfl
      | failed error => rw [hStatus] at hEnded; cases hEnded

end Execution

end Dataflow
