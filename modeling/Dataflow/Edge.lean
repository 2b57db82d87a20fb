import Dataflow.FanOut
import Dataflow.Recorder
import Dataflow.World

/-!
Edges: what a worker holds of a channel. The front of an edge takes slots and its outlet is where
messages go and where received messages come from.
-/

namespace Dataflow

inductive PushError where
  /-- A recording destination refused the slot. -/
  | refused
  /-- The edge has no destination of this number. -/
  | noDestination
  deriving DecidableEq

inductive Outlet (T R : Type) where
  /-- A queue that belongs to the edge alone, the oldest message first. -/
  | queue (waiting : List (Message T R))
  /-- The mailboxes of a channel of the fabric; messages are received from the owner's. -/
  | mailboxes (channel : UInt32) (owner : Nat)
  /-- Recording destinations. Nothing is ever received from them. -/
  | recorders (bank : Recorders T R)

namespace Outlet

variable {τ T R : Type}

/-- Queues and mailboxes take every message and ignore empty slots. -/
def offer (dst : Nat) (slot : Option (Message T R)) :
    Outlet T R × World τ (Message T R) →
      Offered PushError (Outlet T R × World τ (Message T R)) (Message T R)
  | (.queue waiting, world) =>
    { state := (.queue (waiting ++ slot.toList), world), slot := none }
  | (.mailboxes channel owner, world) =>
    match slot with
    | some message =>
      { state := (.mailboxes channel owner, world.deliver channel dst message), slot := none }
    | none => { state := (.mailboxes channel owner, world), slot := none }
  | (.recorders bank, world) =>
    let (response, bank) := bank.answer dst slot
    match response with
    | .take => { state := (.recorders bank, world), slot := none }
    | .handBack => { state := (.recorders bank, world), slot }
    | .refuse => { fault := some .refused, state := (.recorders bank, world), slot }

/-- The oldest message that waits, taken out. -/
def take : Outlet T R × World τ (Message T R) →
    Option (Message T R) × Outlet T R × World τ (Message T R)
  | (.queue waiting, world) => (waiting.head?, .queue waiting.tail, world)
  | (.mailboxes channel owner, world) =>
    let (message, world) := world.take channel owner
    (message, .mailboxes channel owner, world)
  | (.recorders bank, world) => (none, .recorders bank, world)

def waiting : Outlet T R × World τ (Message T R) → Nat
  | (.queue waiting, _) => waiting.length
  | (.mailboxes channel owner, world) => (world.fabric.box channel owner).length
  | (.recorders _, _) => 0

def peers : Outlet T R × World τ (Message T R) → Nat
  | (.queue _, _) => 1
  | (.mailboxes _ _, world) => world.fabric.workers
  | (.recorders bank, _) => bank.pushes.length

def medium : Medium PushError (Outlet T R × World τ (Message T R)) (Message T R) where
  note sink event state := (state.1, state.2.note event sink)
  offer := offer

end Outlet

/-- The half of an edge that takes slots. -/
inductive Front (T R : Type) where
  /-- Slots reach a chosen destination as they are. -/
  | bare
  /-- Messages are stamped on their way to the only destination. -/
  | sender (sender : Sender)
  /-- Records are distributed by hash. -/
  | fanOut (fan : FanOut T R)

structure Edge (τ T R : Type) where
  kind : τ
  front : Front T R
  outlet : Outlet T R
  /-- The receiving end, where received messages are to be reported. -/
  receiver : Option Receiver := none

namespace Edge

variable {τ T R : Type}

/-- Offers a slot to the front of the edge. Only a bare front has a choice of destination. -/
def push [DecidableEq T] [Husk R] (dst : Nat) (slot : Option (Message T R)) :
    Edge τ T R × World τ (Message T R) →
      Offered PushError (Edge τ T R × World τ (Message T R)) (Message T R)
  | (edge, world) =>
    match edge.front with
    | .bare =>
      if dst < Outlet.peers (edge.outlet, world) then
        let offered := Outlet.offer dst slot (edge.outlet, world)
        { fault := offered.fault
          state := ({ edge with outlet := offered.state.1 }, offered.state.2)
          slot := offered.slot }
      else { fault := some .noDestination, state := (edge, world), slot }
    | .sender sender =>
      let offered := Sender.push Outlet.medium 0 slot (sender, edge.outlet, world)
      let (sender, outlet, world) := offered.state
      { fault := offered.fault
        state := ({ edge with front := .sender sender, outlet }, world)
        slot := offered.slot }
    | .fanOut fan =>
      let offered := FanOut.push Outlet.medium slot (fan, edge.outlet, world)
      let (fan, outlet, world) := offered.state
      { fault := offered.fault
        state := ({ edge with front := .fanOut fan, outlet }, world)
        slot := offered.slot }

def report (edge : Edge τ T R) (message : Message T R) (world : World τ (Message T R)) :
    World τ (Message T R) :=
  match edge.receiver with
  | some receiver =>
    match receiver.sink with
    | some sink => world.note (receiver.event message) sink
    | none => world
  | none => world

def pull : Edge τ T R × World τ (Message T R) →
    Option (Message T R) × Edge τ T R × World τ (Message T R)
  | (edge, world) =>
    let (message, outlet, world) := Outlet.take (edge.outlet, world)
    let edge := { edge with outlet }
    match message with
    | some message => (some message, edge, edge.report message world)
    | none => (none, edge, world)

/-- At most `limit` messages, as long as any wait. -/
def pullUpTo : (limit : Nat) → Edge τ T R × World τ (Message T R) →
    List (Message T R) × Edge τ T R × World τ (Message T R)
  | 0, state => ([], state)
  | limit + 1, state =>
    match pull state with
    | (some message, state) =>
      let (messages, state) := pullUpTo limit state
      (message :: messages, state)
    | (none, state) => ([], state)

def drain (state : Edge τ T R × World τ (Message T R)) :
    List (Message T R) × Edge τ T R × World τ (Message T R) :=
  pullUpTo (Outlet.waiting (state.1.outlet, state.2)) state

def buffered? (edge : Edge τ T R) (dst : Nat) : Option Nat :=
  match edge.front with
  | .fanOut fan => fan.buffered? dst
  | .bare | .sender _ => none

end Edge

end Dataflow
