import Dataflow.Launch
import Dataflow.Worker.Channel

/-!
Executions: one worker after the other is launched, and the launched workers run their programs
side by side. `Execution.step` is one act of the launcher or of a worker; nothing is assumed of the
order of turns. `Execution.complete` is the execution in which each worker goes on as far as it can
before the next.
-/

namespace Dataflow

/-- A worker that was launched. -/
structure Runner (τ M ε α : Type) where
  status : Status τ M ε α
  /-- Whether the worker has come to a meeting. -/
  met : Bool := false

/-- `κ` is what a launch fails with, and `ε` what a worker fails with. -/
structure Execution (τ M κ ε α : Type) where
  world : World τ M
  /-- The number of workers to be launched. -/
  count : Nat
  launch : Launch κ (Runner τ M ε α) := {}
  /-- The workers that have ended, in that order. -/
  ended : List Nat := []

/-- Whose turn it is. -/
inductive Turn where
  | launcher
  | worker (index : Nat)

namespace Execution

variable {τ M κ ε α : Type}

/-- The meeting is open once every worker has come to it or has ended. It stays open. -/
def isOpen (execution : Execution τ M κ ε α) : Bool :=
  execution.launch.threads.length == execution.count
    && execution.launch.threads.all fun runner => runner.met || runner.status.ended

/-- Records where a worker stands after its turn. -/
def settle (execution : Execution τ M κ ε α) (worker : Nat) (runner : Runner τ M ε α)
    (status : Status τ M ε α) (world : World τ M) : Execution τ M κ ε α :=
  let met := match status with
    | .waiting _ => true
    | .running _ | .returned _ | .failed _ => runner.met
  let threads := execution.launch.threads.set worker { status, met }
  { execution with
    world
    launch := { execution.launch with threads }
    ended := if status.ended then execution.ended ++ [worker] else execution.ended }

/-- Lets the launcher launch one worker. -/
def launchNext (start : Nat → Except κ (Program τ M ε α)) (execution : Execution τ M κ ε α) :
    Execution τ M κ ε α :=
  if execution.launch.asked.length < execution.count then
    let start := fun index => (start index).map fun program => { status := .running program }
    { execution with launch := execution.launch.next start }
  else execution

variable [DecidableEq τ]

/-- One act of a worker. A worker that waits goes on if the meeting is open, and nothing happens if
the worker has ended or was never launched. -/
def act (worker : Nat) (execution : Execution τ M κ ε α) : Execution τ M κ ε α :=
  match execution.launch.threads[worker]? with
  | none => execution
  | some runner =>
    match runner.status with
    | .running program =>
      let (status, world) := execution.world.act worker program
      execution.settle worker runner status world
    | .waiting program =>
      if execution.isOpen then execution.settle worker runner (.running program) execution.world
      else execution
    | .returned _ | .failed _ => execution

def step (start : Nat → Except κ (Program τ M ε α)) (execution : Execution τ M κ ε α) :
    Turn → Execution τ M κ ε α
  | .launcher => execution.launchNext start
  | .worker index => execution.act index

/-- Lets a worker go on as far as it can. -/
def advance (execution : Execution τ M κ ε α) (worker : Nat) : Execution τ M κ ε α :=
  match execution.launch.threads[worker]? with
  | none => execution
  | some runner =>
    let resume (program : Program τ M ε α) : Execution τ M κ ε α :=
      let (status, world) := execution.world.run worker program
      execution.settle worker runner status world
    match runner.status with
    | .running program => resume program
    | .waiting program => if execution.isOpen then resume program else execution
    | .returned _ | .failed _ => execution

/-- Launches all workers, lets each in turn go on to its meeting, and then each to its end. -/
def complete (start : Nat → Except κ (Program τ M ε α)) (execution : Execution τ M κ ε α) :
    Execution τ M κ ε α :=
  let start := fun index => (start index).map fun program => { status := .running program }
  let launched := { execution with launch := execution.launch.go start execution.count }
  let workers := List.range launched.launch.threads.length
  workers.foldl advance (workers.foldl advance launched)

omit [DecidableEq τ]

def status? (execution : Execution τ M κ ε α) (worker : Nat) : Option (Status τ M ε α) :=
  execution.launch.threads[worker]?.map (·.status)

def result? (execution : Execution τ M κ ε α) (worker : Nat) : Option α :=
  (execution.status? worker).bind Status.result?

def firstError? (execution : Execution τ M κ ε α) : Option ε :=
  execution.ended.findSome? fun worker => (execution.status? worker).bind Status.error?

end Execution

/-- Why an execution as a whole fails. -/
inductive ExecutionError (κ ε : Type) where
  /-- There is nothing for the workers to run. -/
  | noBody
  | fabric (error : FabricError)
  | launch (error : κ)
  | worker (error : ε)

def ExecutionError.noBodyMessage : Bytes := Bytes.ascii "execute: null worker body"

namespace Execution

variable {τ M κ ε α : Type}

/-- The error of an execution that is over. A failed launch counts before all workers, and among
workers the one that failed first. -/
def error? (execution : Execution τ M κ ε α) : Option (ExecutionError κ ε) :=
  match execution.launch.fault with
  | some error => some (.launch error)
  | none => execution.firstError?.map .worker

end Execution

/-- What is left of an execution: the journal, the error if there was one, and what the workers
returned. -/
structure Completed (κ ε α : Type) where
  journal : Journal
  error : Option (ExecutionError κ ε) := none
  /-- The results of the workers that returned, in the order in which they did. -/
  results : List (Nat × α) := []

def Config.context (config : Config) (index : Nat) : Context where
  index
  config
  sink := if config.trace then some (.text (UInt32.ofNat index)) else none

def Config.starting {τ M κ ε α : Type} (config : Config) (body : Context → Program τ M ε α)
    (launches : Nat → Option κ) (index : Nat) : Except κ (Program τ M ε α) :=
  match launches index with
  | some error => .error error
  | none => .ok (body (config.context index))

/-- Runs a body once for every worker, over one new fabric. Without a body not even the level of the
logger is changed. -/
def execute {τ M κ ε α : Type} [DecidableEq τ] (config : Config)
    (body : Option (Context → Program τ M ε α)) (launches : Nat → Option κ) (journal : Journal) :
    Completed κ ε α :=
  match body with
  | none => { journal, error := some .noBody }
  | some body =>
    let journal := config.apply journal
    match (Fabric.create config.workers : Except FabricError (Fabric τ M)) with
    | .error error => { journal, error := some (.fabric error) }
    | .ok fabric =>
      let world : World τ M := { fabric, journal }
      let final :=
        Execution.complete (config.starting body launches) { world, count := config.workers }
      { journal := final.world.journal
        error := final.error?
        results := final.ended.filterMap fun worker => (final.result? worker).map (worker, ·) }

end Dataflow
