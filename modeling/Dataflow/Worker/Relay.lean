import Dataflow.Worker.Channel

/-!
Relays: workers that send prepared batches through one edge, meet, and collect what has arrived.
-/

namespace Dataflow

structure Relay (T R : Type) where
  channel : UInt32
  /-- The hash that distributes the records, or nothing if they stay with their worker. -/
  hash : Option (R → UInt64)
  /-- What each worker sends. Workers that are not listed send nothing. -/
  batches : List (List (T × List R))
  /-- Whether the workers send an empty slot after their batches. -/
  flush : Bool
  /-- The workers that give up at once. -/
  quitters : List Nat

/-- What a worker of a relay has to show. -/
structure Relayed (T R : Type) where
  received : List (Message T R)
  /-- The number of records that wait for each destination. -/
  pending : List Nat

namespace Relay

variable {T R : Type}

def slots (relay : Relay T R) (worker : Nat) : List (Option (Message T R)) :=
  ((relay.batches[worker]?).getD []).map (fun batch => some { time := batch.1, data := batch.2 })
    ++ if relay.flush then [none] else []

/-- Pushes slots into a private queue, in order. -/
def pushAllToPipe {M ε : Type} :
    List (Option (Message T R)) → Pipe T R → Program Unit M ε (Pipe T R)
  | [], pipe => return pipe
  | slot :: slots, pipe => do pushAllToPipe slots (← pipe.push slot)

/-- Pushes slots into a channel between all workers, in order. -/
def pushAll {ε : Type} [DecidableEq T] [Husk R] :
    List (Option (Message T R)) → Exchange T R → Program Unit (Message T R) ε (Exchange T R)
  | [], exchange => return exchange
  | slot :: slots, exchange => do pushAll slots (← exchange.push slot)

/-- The program of one worker. The address of its edge is its own number. -/
def body [DecidableEq T] [Husk R] (relay : Relay T R) (context : Context) :
    Program Unit (Message T R) WorkerError (Relayed T R) := do
  if context.index ∈ relay.quitters then .fail .gaveUp
  else
    let address : Address := [UInt64.ofNat context.index]
    match relay.hash with
    | none => do
      let pipe ← Pipe.connect context relay.channel address
      let pipe ← pushAllToPipe (relay.slots context.index) pipe
      Program.meeting
      let (received, _) ← pipe.drain
      return { received, pending := [] }
    | some hash => do
      let exchange ← Exchange.connect context relay.channel () address hash
      let exchange ← pushAll (relay.slots context.index) exchange
      Program.meeting
      let received ← exchange.drain
      return { received, pending := exchange.fan.lanes.map fun lane => lane.buffer.length }

end Relay

end Dataflow
