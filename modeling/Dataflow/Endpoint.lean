import Dataflow.Medium

/-!
The two ends of a channel. A sender numbers the messages that pass it and marks where they come
from; a receiver only looks. Either end may report each message as an event.
-/

namespace Dataflow

variable {ε σ T R : Type}

/-- The sending end of a channel between two workers. -/
structure Sender where
  channel : UInt32
  source : UInt32
  target : UInt32
  sink : Option Sink
  /-- The number of messages stamped so far, which is the sequence number of the next one. It starts
  again from zero after the largest word. -/
  counter : UInt64 := 0

namespace Sender

/-- Overwrites whatever sequence number and source the message came with. -/
def stamp (sender : Sender) (message : Message T R) : Message T R :=
  { message with seq := sender.counter, source := sender.source }

def event (sender : Sender) (message : Message T R) : Event where
  isSend := true
  channel := sender.channel
  source := sender.source
  target := sender.target
  seq := sender.counter
  length := UInt64.ofNat message.length

/-- Stamps and reports the message of a slot and offers it to destination `dst`. The message is
counted and reported even if the destination then fails. An empty slot passes unseen. -/
def push (medium : Medium ε σ (Message T R)) (dst : Nat) (slot : Option (Message T R)) :
    Sender × σ → Offered ε (Sender × σ) (Message T R)
  | (sender, state) =>
    match slot with
    | none =>
      let offered := medium.offer dst none state
      { fault := offered.fault, state := (sender, offered.state), slot := offered.slot }
    | some message =>
      let state := medium.noteTo sender.sink (sender.event message) state
      let offered := medium.offer dst (some (sender.stamp message)) state
      { fault := offered.fault
        state := ({ sender with counter := sender.counter + 1 }, offered.state)
        slot := offered.slot }

end Sender

structure Receiver where
  channel : UInt32
  index : UInt32
  sink : Option Sink

/-- The source and number of a received message are those it carries. -/
def Receiver.event (receiver : Receiver) (message : Message T R) : Event where
  isSend := false
  channel := receiver.channel
  source := message.source
  target := receiver.index
  seq := message.seq
  length := UInt64.ofNat message.length

end Dataflow
