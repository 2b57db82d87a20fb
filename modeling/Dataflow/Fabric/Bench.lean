import Dataflow.Fabric

/-!
A sequence of fabrics, of which the last one is in use. Mailboxes that were claimed stay reachable
through their handles when their fabric has been replaced.
-/

namespace Dataflow

/-- Access to the mailboxes of a claimed channel. -/
structure Handle (τ : Type) where
  /-- Which of the fabrics made so far. -/
  fabric : Nat
  channel : UInt32
  kind : τ

inductive HandleError where
  /-- No mailbox has this number. -/
  | noBox
  /-- No claim has succeeded under this name. -/
  | noHandle
  deriving DecidableEq

structure Bench (τ M : Type) where
  fabrics : Array (Fabric τ M) := #[]
  /-- The fabric in use. -/
  current : Option Nat := none
  handles : List (String × Handle τ) := []

namespace Bench

variable {τ M : Type}

def fabric? (bench : Bench τ M) : Option (Fabric τ M) := bench.current.bind (bench.fabrics[·]?)

def handle? (bench : Bench τ M) (name : String) : Option (Handle τ) := bench.handles.lookup name

/-- Replaces the fabric in use. If none can be made, none is in use afterwards. -/
def replace (bench : Bench τ M) (workers : Nat) : Except FabricError Nat × Bench τ M :=
  match Fabric.create workers with
  | .ok fabric =>
    (.ok workers,
      { bench with fabrics := bench.fabrics.push fabric, current := some bench.fabrics.size })
  | .error error => (.error error, { bench with current := none })

/-- Claims a channel of the fabric in use and keeps a handle of that name. The answer is the number
of mailboxes. Without a fabric no worker is in range. -/
def claim [DecidableEq τ] (bench : Bench τ M) (name : String) (channel : UInt32) (kind : τ)
    (worker : Nat) : Except ClaimError Nat × Bench τ M :=
  match bench.current, bench.fabric? with
  | some fabric, some found =>
    match found.claim channel kind worker with
    | .ok claimed =>
      (.ok claimed.workers,
        { bench with
          fabrics := bench.fabrics.modify fabric fun _ => claimed
          handles := (name, { fabric, channel, kind }) :: bench.handles })
    | .error error => (.error error, bench)
  | _, _ => (.error .workerOutOfRange, bench)

/-- The fabric behind a handle, if it has a mailbox of that number. -/
def reach (bench : Bench τ M) (name : String) (box : Nat) :
    Except HandleError (Handle τ × Fabric τ M) :=
  match bench.handle? name with
  | none => .error .noHandle
  | some handle =>
    match bench.fabrics[handle.fabric]? with
    | some fabric => if box < fabric.workers then .ok (handle, fabric) else .error .noBox
    | none => .error .noHandle

def push (bench : Bench τ M) (name : String) (box : Nat) (message : M) :
    Except HandleError Unit × Bench τ M :=
  match bench.reach name box with
  | .ok (handle, _) =>
    (.ok (),
      { bench with
        fabrics := bench.fabrics.modify handle.fabric fun fabric =>
          fabric.deliver handle.channel box message })
  | .error error => (.error error, bench)

def pop (bench : Bench τ M) (name : String) (box : Nat) :
    Except HandleError (Option M) × Bench τ M :=
  match bench.reach name box with
  | .ok (handle, fabric) =>
    let (message, fabric) := fabric.take handle.channel box
    (.ok message, { bench with fabrics := bench.fabrics.modify handle.fabric fun _ => fabric })
  | .error error => (.error error, bench)

end Bench

end Dataflow
