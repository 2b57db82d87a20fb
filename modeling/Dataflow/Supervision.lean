import Dataflow.Execution

/-!
Supervised executions. The thread that calls for an execution launches the workers, waits for each
that was launched, in the order of the launches, and answers only then. A worker that fails leaves
its error for the caller, unless another has done so before.
-/

namespace Dataflow

/-- How far the thread that calls for an execution has come. -/
inductive Supervision.Phase (κ ε : Type) where
  | launching
  /-- The threads before `next` have been waited for. -/
  | joining (next : Nat)
  | answered (error : Option (ExecutionError κ ε))

structure Supervision (τ M κ ε α : Type) where
  execution : Execution τ M κ ε α
  /-- The error that is kept for the caller. -/
  captured : Option ε := none
  phase : Supervision.Phase κ ε := .launching

def Status.failing? {τ M ε α : Type} : Status τ M ε α → Option ε
  | .running (.fail error) => some error
  | .running _ | .waiting _ | .returned _ | .failed _ => none

/-- Whether no launch is to be asked for any more: all have been, or one has failed. -/
def Execution.launchingOver {τ M κ ε α : Type} (execution : Execution τ M κ ε α) : Bool :=
  execution.launch.fault.isSome || execution.count ≤ execution.launch.asked.length

namespace Supervision

variable {τ M κ ε α : Type}

/-- What the caller answers. A failed launch counts before every error of a worker. -/
def answer (supervision : Supervision τ M κ ε α) : Option (ExecutionError κ ε) :=
  match supervision.execution.launch.fault with
  | some error => some (.launch error)
  | none => supervision.captured.map .worker

/-- One act of the caller. While the thread it waits for has not ended, nothing happens. -/
def call (start : Nat → Except κ (Program τ M ε α)) (supervision : Supervision τ M κ ε α) :
    Supervision τ M κ ε α :=
  let execution := supervision.execution
  match supervision.phase with
  | .launching =>
    if execution.launchingOver then { supervision with phase := .joining 0 }
    else { supervision with execution := execution.launchNext start }
  | .joining next =>
    match execution.launch.threads[next]? with
    | some runner =>
      if runner.status.ended then { supervision with phase := .joining (next + 1) }
      else supervision
    | none => { supervision with phase := .answered supervision.answer }
  | .answered _ => supervision

variable [DecidableEq τ]

/-- One act of a worker. The error it fails with is kept if none is kept yet. -/
def act (worker : Nat) (supervision : Supervision τ M κ ε α) : Supervision τ M κ ε α :=
  let execution := supervision.execution
  { supervision with
    execution := execution.act worker
    captured := supervision.captured.or ((execution.status? worker).bind Status.failing?) }

def step (start : Nat → Except κ (Program τ M ε α)) (supervision : Supervision τ M κ ε α) :
    Turn → Supervision τ M κ ε α
  | .launcher => supervision.call start
  | .worker index => supervision.act index

def after (start : Nat → Except κ (Program τ M ε α)) (turns : List Turn)
    (supervision : Supervision τ M κ ε α) : Supervision τ M κ ε α :=
  turns.foldl (step start) supervision

end Supervision

end Dataflow
