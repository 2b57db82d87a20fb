import Dataflow.Config
import Dataflow.Pact
import Dataflow.Worker.Program

/-!
Channels in the hands of a worker's program. The ends of a channel are local to the worker; what
they do to mailboxes and journal comes out as acts of the program.
-/

namespace Dataflow

/-- What a worker is told when it starts. -/
structure Context where
  index : Nat
  config : Config
  /-- Where the worker is to report its messages. -/
  sink : Option Sink

def Context.word (context : Context) : UInt32 := UInt32.ofNat context.index

inductive WorkerError where
  | connect (error : ConnectError)
  /-- The worker gave up of its own accord. -/
  | gaveUp
  deriving DecidableEq

def WorkerError.message? : WorkerError → Option Bytes
  | connect error => error.message?
  | gaveUp => some (Bytes.ascii "worker body failed")

variable {τ T R : Type}

/-- Mailboxes as destinations. Slots are not offered to them at once but become acts, to be performed
in order. They never fail. -/
def outbox (channel : UInt32) :
    Medium Empty (Array (Effect (Message T R))) (Message T R) where
  note sink event acts := acts.push (.note sink event)
  offer dst slot acts :=
    match slot with
    | some message => { state := acts.push (.deliver channel dst message), slot := none }
    | none => { state := acts, slot := none }

structure Pipe (T R : Type) where
  sender : Sender
  receiver : Receiver
  waiting : List (Message T R) := []

namespace Pipe

def connect {M ε : Type} (context : Context) (channel : UInt32) (address : Address) :
    Program τ M ε (Pipe T R) := do
  Program.log .debug channel (pipelineNotice address)
  let index := context.word
  let sink := context.sink
  return { sender := { channel, source := index, target := index, sink }
           receiver := { channel, index, sink } }

/-- The queue as a destination, with the acts that reports become. -/
def medium {M : Type} :
    Medium Empty (List (Message T R) × Array (Effect M)) (Message T R) where
  note sink event state := (state.1, state.2.push (.note sink event))
  offer _ slot state := { state := (state.1 ++ slot.toList, state.2), slot := none }

def push {M ε : Type} (slot : Option (Message T R)) (pipe : Pipe T R) :
    Program τ M ε (Pipe T R) := do
  let (sender, waiting, acts) :=
    (Sender.push medium 0 slot (pipe.sender, pipe.waiting, #[])).state
  Program.performAll acts.toList
  return { pipe with sender, waiting }

def reports {M : Type} (receiver : Receiver) (messages : List (Message T R)) : List (Effect M) :=
  match receiver.sink with
  | some sink => messages.map fun message => .note sink (receiver.event message)
  | none => []

def pull {M ε : Type} (pipe : Pipe T R) :
    Program τ M ε (Option (Message T R) × Pipe T R) := do
  Program.performAll (reports pipe.receiver pipe.waiting.head?.toList)
  return (pipe.waiting.head?, { pipe with waiting := pipe.waiting.tail })

def drain {M ε : Type} (pipe : Pipe T R) :
    Program τ M ε (List (Message T R) × Pipe T R) := do
  Program.performAll (reports pipe.receiver pipe.waiting)
  return (pipe.waiting, { pipe with waiting := [] })

end Pipe

/-- Both ends of a channel between all workers. Records leave through a distributor and arrive in
the worker's own mailbox. -/
structure Exchange (T R : Type) where
  channel : UInt32
  fan : FanOut T R
  receiver : Receiver

namespace Exchange

/-- A channel that was claimed stays claimed if the distributor then cannot be made. -/
def connect {M : Type} (context : Context) (channel : UInt32) (kind : τ) (address : Address)
    (hash : R → UInt64) : Program τ M WorkerError (Exchange T R) :=
  .claim channel kind fun answer =>
    match answer with
    | .error error => .fail (.connect (.claim error))
    | .ok peers => do
      Program.log .debug channel (exchangeNotice address peers)
      let index := context.word
      let sink := context.sink
      let senders := Sender.towardsAll channel index sink peers
      match FanOut.create senders context.config.capacity hash with
      | .error error => .fail (.connect (.fanOut error))
      | .ok fan => return { channel, fan, receiver := { channel, index, sink } }

def push {ε : Type} [DecidableEq T] [Husk R] (slot : Option (Message T R))
    (exchange : Exchange T R) :
    Program τ (Message T R) ε (Exchange T R) := do
  let (fan, acts) := (FanOut.push (outbox exchange.channel) slot (exchange.fan, #[])).state
  Program.performAll acts.toList
  return { exchange with fan }

def pull {ε : Type} (exchange : Exchange T R) :
    Program τ (Message T R) ε (Option (Message T R)) := do
  let message ← Program.takeNext exchange.channel
  Program.performAll (Pipe.reports exchange.receiver message.toList)
  return message

def drain {ε : Type} (exchange : Exchange T R) :
    Program τ (Message T R) ε (List (Message T R)) := do
  let messages ← Program.takeAll exchange.channel
  Program.performAll (Pipe.reports exchange.receiver messages)
  return messages

end Exchange

end Dataflow
