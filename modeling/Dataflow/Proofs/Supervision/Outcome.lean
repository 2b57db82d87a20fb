import Dataflow.Proofs.Supervision.Complete

/-! The outcome of an execution, for every order of turns and whatever launches and workers fail:
who runs what, what the log tells of it, when the caller answers, and with which error. -/
namespace Dataflow

variable {τ M κ ε α : Type} [DecidableEq τ]

/-- How a supervised execution of a body stands at any time, by what its workers have done. -/
structure Supervision.Recorded (config : Config) (body : Context → Program τ M ε α)
    (launches : Nat → Option κ) (world : World τ M) (deeds : List (Deed τ M ε α))
    (supervision : Supervision τ M κ ε α) : Prop where
  /-- Launches are asked for from the first worker on. -/
  asked : supervision.execution.launch.asked =
    List.range supervision.execution.launch.asked.length
  /-- No launch is asked for after one that fails. -/
  stopped : ∀ worker ∈ supervision.execution.launch.asked, ∀ earlier < worker,
    launches earlier = none
  /-- Whoever was launched runs the body once, from its start and under its own index. -/
  once : ∀ worker runner, supervision.execution.launch.threads[worker]? = some runner →
    (body (config.context worker)).Ran (deeds.filter (·.worker = worker)) runner.status
  /-- Whoever was not launched does nothing. -/
  others : ∀ deed ∈ deeds, deed.worker < supervision.execution.launch.threads.length
  /-- All deeds are done in one world, with one fabric and one log. -/
  shared : Deed.Chain world deeds supervision.execution.world
  /-- A worker that has failed has done so by one deed, and nobody else has done such a deed. -/
  failures : ∀ worker status, supervision.execution.status? worker = some status →
    (deeds.filter (·.worker = worker)).filterMap Deed.error? = status.error?.toList
  /-- The log is what stood there before and what the deeds wrote. -/
  log : supervision.execution.world.journal.logger.lines.toList =
    world.journal.logger.lines.toList ++ deeds.flatMap Deed.lines
  /-- A deed that fails writes one line at error level, if that is enabled, and no other. -/
  failureLines : ∀ deed ∈ deeds, ∀ error, deed.error? = some error →
    deed.lines = if config.level.enables .error && world.journal.logger.attached then
      [failureLine deed.worker] else []

/-- What the answer of the caller tells, and what is the case by then. -/
structure Supervision.Answered (config : Config) (launches : Nat → Option κ)
    (deeds : List (Deed τ M ε α)) (supervision : Supervision τ M κ ε α)
    (error : Option (ExecutionError κ ε)) : Prop where
  /-- Everyone who was launched has ended. -/
  ended : supervision.execution.AllEnded
  /-- If no launch fails, all workers have been launched, and the answer is the error of the deed
  that failed first; there is none exactly if all workers have returned. -/
  workers : (∀ worker < config.workers, launches worker = none) →
    supervision.execution.launch.threads.length = config.workers ∧
    error = (deeds.findSome? Deed.error?).map .worker ∧
    (error = none ↔ ∀ worker < config.workers, ∃ result,
      supervision.execution.status? worker = some (.returned result))
  /-- If a launch fails, exactly the workers before it have been launched, nobody after it was to
  be, and the answer is the error of the launch. -/
  launch : ∀ worker < config.workers, ∀ failure, launches worker = some failure →
    (∀ earlier < worker, launches earlier = none) →
    supervision.execution.launch.threads.length = worker ∧
    supervision.execution.launch.asked = List.range (worker + 1) ∧
    error = some (.launch failure)

section Starting

variable {config : Config} {body : Context → Program τ M ε α} {launches : Nat → Option κ}
  {worker : Nat}

omit [DecidableEq τ] in
/-- A worker whose launch is not refused runs the body in its own context. -/
theorem Config.starting_of_none (h : launches worker = none) :
    config.starting body launches worker = .ok (body (config.context worker)) := by
  rw [starting, h]

omit [DecidableEq τ] in
theorem Config.starting_eq_ok {program : Program τ M ε α}
    (h : config.starting body launches worker = .ok program) :
    launches worker = none ∧ program = body (config.context worker) := by
  unfold starting at h
  split at h
  · cases h
  · cases h
    exact ⟨‹_›, rfl⟩

omit [DecidableEq τ] in
/-- A launch fails with the failure that is in store for it. -/
theorem Config.starting_eq_error {failure : κ}
    (h : config.starting body launches worker = .error failure) :
    launches worker = some failure := by
  unfold starting at h
  split at h
  · cases h
    assumption
  · cases h

omit [DecidableEq τ] in
theorem Config.starting_meets {n : Nat} (h : ∀ context, (body context).Meets n) :
    ∀ index program, config.starting body launches index = .ok program → program.Meets n := by
  intro index program hStart
  rw [(starting_eq_ok hStart).2]
  exact h _

end Starting

namespace Execution

variable {config : Config} {body : Context → Program τ M ε α} {launches : Nat → Option κ}
  {world : World τ M} {deeds : List (Deed τ M ε α)} {execution : Execution τ M κ ε α}

/-- Whoever is running was launched. -/
theorem Account.launches_none (h : Account (config.starting body launches) world deeds execution)
    {worker : Nat} (hWorker : worker < execution.launch.threads.length) :
    launches worker = none := by
  obtain ⟨program, hStart, -⟩ := h.ran worker _ (List.getElem?_eq_getElem hWorker)
  exact (Config.starting_eq_ok hStart).1

/-- Before a launch is asked for, those of all earlier workers have succeeded. -/
theorem Account.stopped (h : Account (config.starting body launches) world deeds execution) :
    ∀ worker ∈ execution.launch.asked, ∀ earlier < worker, launches earlier = none := by
  intro worker hAsked earlier hEarlier
  rw [h.orderly.asked, List.mem_range] at hAsked
  refine h.launches_none (Nat.lt_of_lt_of_le hEarlier ?_)
  cases hFault : execution.launch.fault with
  | none =>
      have hLength := h.orderly.sound hFault
      omega
  | some failure =>
      have hLength := (h.orderly.failed failure hFault).1
      omega

/-- Where no launch is refused all workers are launched. -/
theorem Account.all_launched (h : Account (config.starting body launches) world deeds execution)
    (hOver : execution.launchingOver = true)
    (hLaunches : ∀ worker < execution.count, launches worker = none) :
    execution.launch.fault = none ∧ execution.launch.threads.length = execution.count := by
  have hCount := h.orderly.count
  cases hFault : execution.launch.fault with
  | none =>
      have hLength := h.orderly.sound hFault
      have hAll := count_le_asked hOver hFault
      exact ⟨rfl, by omega⟩
  | some failure =>
      obtain ⟨hLength, hRefused⟩ := h.orderly.failed failure hFault
      have hNone := hLaunches execution.launch.threads.length (by omega)
      rw [Config.starting_eq_error hRefused] at hNone
      cases hNone

/-- The first refusal ends the launching. -/
theorem Account.launch_refused (h : Account (config.starting body launches) world deeds execution)
    (hOver : execution.launchingOver = true) {worker : Nat} (hWorker : worker < execution.count)
    {failure : κ} (hFailure : launches worker = some failure)
    (hEarlier : ∀ earlier < worker, launches earlier = none) :
    execution.launch.fault = some failure ∧ execution.launch.threads.length = worker ∧
      execution.launch.asked = List.range (worker + 1) := by
  have hNotLaunched : execution.launch.threads.length ≤ worker := by
    by_contra hLess
    rw [h.launches_none (Nat.lt_of_not_le hLess)] at hFailure
    cases hFailure
  cases hFault : execution.launch.fault with
  | none =>
      have hLength := h.orderly.sound hFault
      have hAll := count_le_asked hOver hFault
      omega
  | some failure' =>
      obtain ⟨hLength, hRefused⟩ := h.orderly.failed failure' hFault
      have hRefused := Config.starting_eq_error hRefused
      have hHere : execution.launch.threads.length = worker := by
        by_contra hApart
        rw [hEarlier _ (Nat.lt_of_le_of_ne hNotLaunched hApart)] at hRefused
        cases hRefused
      rw [hHere, hFailure] at hRefused
      cases hRefused
      exact ⟨rfl, hHere, by rw [h.orderly.asked, hLength, hHere]⟩

/-- If everyone has ended, nobody has failed exactly if everyone has returned. -/
theorem Account.no_error_iff (h : Account (config.starting body launches) world deeds execution)
    (hEnded : execution.AllEnded) :
    deeds.findSome? Deed.error? = none ↔
      ∀ worker < execution.launch.threads.length, ∃ result,
        execution.status? worker = some (.returned result) := by
  rw [List.findSome?_eq_none_iff]
  constructor
  · intro hNone worker hWorker
    have hRunner := List.getElem?_eq_getElem hWorker
    have hStatus : execution.status? worker = some execution.launch.threads[worker].status := by
      rw [status?, hRunner, Option.map_some]
    have hErrors := h.errors hStatus
    have hHere := hEnded _ (List.getElem_mem hWorker)
    cases hCase : execution.launch.threads[worker].status with
    | running program => rw [hCase] at hHere; cases hHere
    | waiting program => rw [hCase] at hHere; cases hHere
    | returned result => exact ⟨result, hCase ▸ hStatus⟩
    | failed error =>
        have hNil : (deeds.filter (·.worker = worker)).filterMap Deed.error? = [] :=
          List.filterMap_eq_nil_iff.mpr fun deed hDeed => hNone deed (List.mem_filter.mp hDeed).1
        rw [hNil, hCase] at hErrors
        cases hErrors
  · intro hReturned deed hDeed
    obtain ⟨result, hStatus⟩ := hReturned deed.worker (h.launched deed hDeed)
    exact List.filterMap_eq_nil_iff.mp (h.errors hStatus) deed
      (List.mem_filter.mpr ⟨hDeed, decide_eq_true rfl⟩)

end Execution

namespace Supervision

variable {config : Config} {body : Context → Program τ M ε α} {launches : Nat → Option κ}
  {world : World τ M} {deeds : List (Deed τ M ε α)} {supervision : Supervision τ M κ ε α}

/-- What is on record at any time. -/
theorem recorded
    (h : supervision.execution.Account (config.starting body launches) world deeds)
    (hLevel : world.journal.logger.level = config.level) :
    supervision.Recorded config body launches world deeds := by
  obtain ⟨-, -, hLog⟩ := h.chain.logger
  exact {
    asked := h.orderly.asked
    stopped := h.stopped
    once := by
      intro worker runner hRunner
      obtain ⟨program, hStart, hRan⟩ := h.ran worker runner hRunner
      rwa [(Config.starting_eq_ok hStart).2] at hRan
    others := h.launched
    shared := h.chain
    failures := fun worker status hStatus => h.errors hStatus
    log := hLog
    failureLines := by
      intro deed hDeed error hError
      obtain ⟨hSame, hAttached⟩ := h.chain.logger_of_mem hDeed
      rw [Deed.lines_of_error hError, hSame, hAttached, hLevel] }

/-- What is on record once the caller has its answer. -/
theorem answered
    (h : supervision.execution.Account (config.starting body launches) world deeds)
    (hCount : supervision.execution.count = config.workers) (hStands : supervision.Stands)
    (hCaptured : supervision.captured = deeds.findSome? Deed.error?)
    {error : Option (ExecutionError κ ε)} (hPhase : supervision.phase = .answered error) :
    supervision.Answered config launches deeds error := by
  obtain ⟨hEnded, rfl⟩ := hStands.answered error hPhase
  have hOver := hStands.launched (by rw [hPhase]; exact fun hNot => nomatch hNot)
  refine ⟨hEnded, fun hLaunches => ?_, fun worker hWorker failure hFailure hEarlier => ?_⟩
  · rw [← hCount] at hLaunches ⊢
    obtain ⟨hFault, hLength⟩ := h.all_launched hOver hLaunches
    have hAnswer : supervision.answer = (deeds.findSome? Deed.error?).map .worker := by
      rw [answer, hFault, hCaptured]
    refine ⟨hLength, hAnswer, ?_⟩
    rw [hAnswer, Option.map_eq_none_iff, ← hLength]
    exact h.no_error_iff hEnded
  · rw [← hCount] at hWorker
    obtain ⟨hFault, hLength, hAsked⟩ := h.launch_refused hOver hWorker hFailure hEarlier
    exact ⟨hLength, hAsked, by rw [answer, hFault]⟩

/-- What holds after any turns from the beginning. -/
theorem begun_after (start : Nat → Except κ (Program τ M ε α)) (world : World τ M) (count : Nat)
    (turns : List Turn) :
    let begun : Supervision τ M κ ε α := { execution := { world, count } }
    let deeds := begun.execution.deeds start turns
    let reached := begun.after start turns
    reached.Stands ∧ reached.execution = begun.execution.after start turns ∧
      reached.execution.Account start world deeds ∧
      reached.captured = deeds.findSome? Deed.error? := by
  intro begun deeds reached
  have hBegun : begun.Stands := {
    launched := fun hNot => absurd rfl hNot
    joined := fun _ hPhase => nomatch hPhase
    answered := fun _ hPhase => nomatch hPhase }
  obtain ⟨hStands, hExecution⟩ := hBegun.after start turns
  refine ⟨hStands, hExecution, ?_, ?_⟩
  · rw [hExecution]
    exact (Execution.Account.initial start world count).after turns
  · exact (captured_after hBegun start turns).trans Option.none_or

omit [DecidableEq τ] in
/-- The caller answers with the error of the execution. -/
theorem answer_eq_error? (h : supervision.captured = supervision.execution.firstError?) :
    supervision.answer = supervision.execution.error? := by
  unfold answer Execution.error?
  cases supervision.execution.launch.fault with
  | some failure => rfl
  | none => exact congrArg (Option.map ExecutionError.worker) h

/-- The complete execution can be supervised, and its error is then the answer of the caller. -/
theorem complete_supervised {start : Nat → Except κ (Program τ M ε α)} {count : Nat}
    (hBrief : Execution.Brief start count) (world : World τ M) :
    let begun : Supervision τ M κ ε α := { execution := { world, count } }
    ∃ turns,
      let final := begun.after start turns
      final.execution = begun.execution.complete start ∧
      final.phase = .answered final.execution.error? := by
  intro begun
  obtain ⟨turns, hTurns⟩ :=
    Execution.complete_after start (rfl : begun.execution.launch.asked = [])
  obtain ⟨hStands, hExecution, hAccount, hCaptured⟩ := begun_after start world count turns
  have hComplete : (begun.after start turns).execution = begun.execution.complete start :=
    hExecution.trans hTurns
  obtain ⟨n, hPhase, hSame⟩ := answers hStands hAccount.orderly
    (hComplete ▸ Execution.launchingOver_complete start world count)
    (hComplete ▸ Execution.allEnded_complete world hBrief)
  have hAfter : begun.after start (turns ++ List.replicate n .launcher) =
      (begun.after start turns).after start (List.replicate n .launcher) := List.foldl_append
  have hFinal : (begun.after start (turns ++ List.replicate n .launcher)).execution =
      (begun.after start turns).execution := by
    rw [hAfter]
    exact hSame
  refine ⟨_, hFinal.trans hComplete, ?_⟩
  rw [hFinal, ← answer_eq_error? (hCaptured.trans hAccount.firstError?.symm), hAfter]
  exact hPhase

end Supervision

/-- The outcome of an execution, whatever its body and whichever launches fail. At any time, in
whatever order the caller and the workers have taken turns so far: workers are launched in order and
none after a launch that fails; each runs the body once, under its own index, in the one world that
all share; and a worker that fails leaves one line in the log. When the caller answers, everyone who
was launched has ended and nothing happens any more; its answer is the error of the launch that
failed, and without one that of the worker that failed first, if any has. It does come to answer
under every fair schedule, unless workers are left waiting for one that could not be launched. The
program itself takes one such order of turns. -/
theorem outcome_in_any_order (config : Config) (body : Context → Program τ M ε α)
    (launches : Nat → Option κ) (journal : Journal) {fabric : Fabric τ M}
    (hFabric : Fabric.create config.workers = .ok fabric) :
    let start := config.starting body launches
    let world : World τ M := { fabric, journal := config.apply journal }
    let begun : Supervision τ M κ ε α := { execution := { world, count := config.workers } }
    (∀ turns,
      let deeds := begun.execution.deeds start turns
      let reached := begun.after start turns
      reached.Recorded config body launches world deeds ∧
      ∀ error, reached.phase = .answered error →
        reached.Answered config launches deeds error ∧
        ∀ more, reached.after start more = reached) ∧
    ((∀ worker < config.workers, launches worker = none) ∨ (∀ context, (body context).Meets 0) →
      ∀ schedule, Fair config.workers schedule →
        ∃ n error, (begun.under start schedule n).phase = .answered error) ∧
    ((∀ worker < config.workers, launches worker = none) ∧ (∀ context, (body context).Meets 1) ∨
        (∀ context, (body context).Meets 0) →
      let completed := execute config (some body) launches journal
      ∃ turns,
        let final := begun.after start turns
        final.phase = .answered completed.error ∧
        completed.journal = final.execution.world.journal ∧
        completed.results = final.execution.results) := by
  intro start world begun
  refine ⟨fun turns => ?_, fun hCome schedule hFair => ?_, fun hBrief => ?_⟩
  · obtain ⟨hStands, hExecution, hAccount, hCaptured⟩ :=
      Supervision.begun_after start world config.workers turns
    have hCount : (begun.after start turns).execution.count = config.workers := by
      rw [hExecution]
      exact begun.execution.count_after turns
    exact ⟨Supervision.recorded hAccount rfl, fun error hPhase =>
      ⟨Supervision.answered hAccount hCount hStands hCaptured hPhase,
        hStands.after_answered hPhase start⟩⟩
  · have hUnhindered : begun.execution.Unhindered start := by
      refine hCome.imp (fun hLaunches => ⟨⟨rfl, rfl, Nat.zero_le _, ?_⟩, ?_⟩) fun hMeets => ⟨?_, ?_⟩
      · exact fun _ hNone => (nomatch hNone)
      · exact fun index hIndex => ⟨_, Config.starting_of_none (hLaunches index hIndex)⟩
      · exact fun _ hNone => (nomatch hNone)
      · exact Config.starting_meets hMeets
    obtain ⟨hStands, -, hAccount, -⟩ := Supervision.begun_after start world config.workers []
    exact Supervision.eventually_answered hStands hAccount hUnhindered hFair
  · have hBrief' : Execution.Brief start config.workers := by
      refine hBrief.imp (fun hLaunches => ⟨fun index hIndex => ?_, ?_⟩) Config.starting_meets
      · exact ⟨_, Config.starting_of_none (hLaunches.1 index hIndex)⟩
      · exact Config.starting_meets hLaunches.2
    have hExecute : execute config (some body) launches journal =
        let final := Execution.complete start begun.execution
        { journal := final.world.journal, error := final.error?, results := final.results } := by
      simp only [execute, hFabric]
      rfl
    obtain ⟨turns, hComplete, hPhase⟩ := Supervision.complete_supervised hBrief' world
    refine ⟨turns, ?_⟩
    rw [hExecute, ← hComplete]
    exact ⟨hPhase, rfl, rfl⟩

namespace Failing

def config : Config := { workers := 3, level := .error }

/-- All workers fail, each with its own number. -/
def body (context : Context) : Program Unit Unit Nat Unit := .fail context.index

def begun : Supervision Unit Unit Unit Nat Unit where
  execution := { world := { fabric := { workers := 3 }, journal := config.apply {} }, count := 3 }

def granted (_ : Nat) : Option Unit := none

def refused (worker : Nat) : Option Unit := if worker = 1 then some () else none

/-- All are launched, the last worker fails before the others, and the caller joins. -/
def turns : List Turn :=
  List.replicate 3 .launcher ++ [.worker 2, .worker 0, .worker 1] ++ List.replicate 5 .launcher

/-- Two launches are asked for, worker 0 fails, and the caller joins. -/
def fewer : List Turn :=
  List.replicate 2 .launcher ++ [.worker 0] ++ List.replicate 3 .launcher

end Failing

open Failing in
/-- Three workers fail, the last one first; and worker 0 fails while worker 1 cannot be launched. -/
theorem outcome_of_failures :
    Fabric.create config.workers = .ok ({ workers := 3 } : Fabric Unit Unit) ∧
    (let reached := begun.after (config.starting body granted) turns
    reached.Answered config granted (begun.execution.deeds (config.starting body granted) turns)
      (some (.worker 2)) ∧
    reached.execution.world.journal.logger.lines.toList =
      [failureLine 2, failureLine 0, failureLine 1]) ∧
    (∃ n error,
      (begun.under (config.starting body granted) (roundRobin 3) n).phase = .answered error) ∧
    (begun.after (config.starting body refused) fewer).Answered config refused
      (begun.execution.deeds (config.starting body refused) fewer) (some (.launch ())) ∧
    (execute config (some body) refused {}).error = some (.launch ()) := by
  have hFabric : Fabric.create config.workers = .ok ({ workers := 3 } : Fabric Unit Unit) := by rfl
  have hWorker : (begun.after (config.starting body granted) turns).phase =
      .answered (some (.worker 2)) := by rfl
  have hLaunch : (begun.after (config.starting body refused) fewer).phase =
      .answered (some (.launch ())) := by rfl
  obtain ⟨hAny, hFair, -⟩ := outcome_in_any_order config body granted {} hFabric
  obtain ⟨hAnyRefused, -, -⟩ := outcome_in_any_order config body refused {} hFabric
  refine ⟨hFabric, ⟨((hAny turns).2 _ hWorker).1, by rfl⟩, ?_, ((hAnyRefused fewer).2 _ hLaunch).1,
    by rfl⟩
  exact hFair (Or.inl fun _ _ => rfl) _ (fair_roundRobin 3)

end Dataflow
