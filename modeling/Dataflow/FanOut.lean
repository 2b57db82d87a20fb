import Dataflow.Endpoint
import Dataflow.Hash

/-!
Distribution of records among destinations by hash. Each destination has a buffer; all buffered
records share one time. A buffer that reaches the capacity is sent at once, and all buffers are sent
when a message of another time or an empty slot arrives.
-/

namespace Dataflow

variable {ε σ T R : Type}

/-- One destination: the sending end towards it and the records that wait for it. -/
structure Lane (R : Type) where
  sender : Sender
  buffer : List R := []

/-- A distributor of records. The destinations are numbered by the positions of their lanes. -/
structure FanOut (T R : Type) where
  lanes : List (Lane R)
  /-- The number of records at which a buffer is sent. -/
  capacity : Nat
  hash : R → UInt64
  /-- The time of the buffered records. While it is absent nothing is buffered. -/
  current : Option T := none

inductive FanOutError where
  | noDestinations
  | zeroCapacity
  deriving DecidableEq

def FanOutError.message : FanOutError → Bytes
  | noDestinations => Bytes.ascii "ExchangePusher: no destinations"
  | zeroCapacity => Bytes.ascii "ExchangePusher: zero buffer capacity"

namespace FanOut

def defaultCapacity : Nat := 1024

/-- A distributor with empty buffers. Missing destinations are noticed before a zero capacity. -/
def create (senders : List Sender) (capacity : Nat) (hash : R → UInt64) :
    Except FanOutError (FanOut T R) :=
  if senders = [] then .error .noDestinations
  else if capacity = 0 then .error .zeroCapacity
  else .ok { lanes := senders.map fun sender => { sender }, capacity, hash }

def peers (fan : FanOut T R) : Nat := fan.lanes.length

def buffered? (fan : FanOut T R) (dst : Nat) : Option Nat :=
  fan.lanes[dst]?.map fun lane => lane.buffer.length

def route (fan : FanOut T R) (record : R) : Nat := Hash.destination (fan.hash record) fan.peers

/-- Sends what waits for one destination as a message of its own. Nothing is sent for an empty
buffer. -/
def flush (medium : Medium ε σ (Message T R)) (time : T) (dst : Nat) :
    FanOut T R × σ → Attempt ε (FanOut T R × σ)
  | (fan, state) =>
    match fan.lanes[dst]? with
    | some ⟨sender, record :: records⟩ =>
      let (attempt, buffer) := Message.pushAt
        (fun slot => Sender.push medium dst slot (sender, state)) time (record :: records)
      { fault := attempt.fault
        state := ({ fan with lanes := fan.lanes.set dst ⟨attempt.state.1, buffer⟩ },
          attempt.state.2) }
    | some ⟨_, []⟩ | none => { state := (fan, state) }

/-- Flushes the given destinations in turn, up to the first that fails. -/
def flushEach (medium : Medium ε σ (Message T R)) (time : T) :
    List Nat → FanOut T R × σ → Attempt ε (FanOut T R × σ)
  | [], state => { state }
  | dst :: rest, state => (flush medium time dst state).andThen (flushEach medium time rest)

def flushBuffers (medium : Medium ε σ (Message T R)) (state : FanOut T R × σ) :
    Attempt ε (FanOut T R × σ) :=
  match state.1.current with
  | some time => flushEach medium time (List.range state.1.peers) state
  | none => { state }

def append (fan : FanOut T R) (dst : Nat) (record : R) : FanOut T R :=
  { fan with
    lanes := fan.lanes.modify dst fun lane => { lane with buffer := lane.buffer ++ [record] } }

/-- Buffers one record, and sends the buffer if that fills it. -/
def put (medium : Medium ε σ (Message T R)) (time : T) (record : R) :
    FanOut T R × σ → Attempt ε (FanOut T R × σ)
  | (fan, state) =>
    let dst := fan.route record
    let fan := fan.append dst record
    if (fan.buffered? dst).any (fan.capacity ≤ ·) then flush medium time dst (fan, state)
    else { state := (fan, state) }

/-- Buffers records in order, up to the first that meets a fault. The second component is the
records behind that one, which were not touched. -/
def deal (medium : Medium ε σ (Message T R)) (time : T) :
    List R → FanOut T R × σ → Attempt ε (FanOut T R × σ) × List R
  | [], state => ({ state }, [])
  | record :: rest, state =>
    let attempt := put medium time record state
    match attempt.fault with
    | none => deal medium time rest attempt.state
    | some _ => (attempt, rest)

/-- Passes an empty slot to the given destinations in turn, up to the first that fails. -/
def closeEach (medium : Medium ε σ (Message T R)) :
    List Nat → FanOut T R × σ → Attempt ε (FanOut T R × σ)
  | [], state => { state }
  | dst :: rest, (fan, state) =>
    let offered := medium.offer dst none state
    ({ fault := offered.fault, state := (fan, offered.state) } : Attempt ε _).andThen
      (closeEach medium rest)

/-- Sends all buffers, forgets the time, and passes the empty slot on to every destination. -/
def close (medium : Medium ε σ (Message T R)) (state : FanOut T R × σ) :
    Attempt ε (FanOut T R × σ) :=
  (flushBuffers medium state).andThen fun (fan, state) =>
    closeEach medium (List.range fan.peers) ({ fan with current := none }, state)

/-- Sends all buffers if their time is another one than that of the coming message. Times are compared
by equality, so this is about types of time whose `==` is that: a floating point time that is not
equal to itself, or zeros of two signs, are not covered. -/
def turn [DecidableEq T] (medium : Medium ε σ (Message T R)) (time : T)
    (state : FanOut T R × σ) : Attempt ε (FanOut T R × σ) :=
  if state.1.current.any (· ≠ time) then flushBuffers medium state else { state }

/-- Distributes the records of a message. The message is left in the slot: with no records if all
went well; with a husk for every record that was taken out if a destination failed on the way; and
untouched if the buffers of the time before could not be sent. -/
def distribute [DecidableEq T] [Husk R] (medium : Medium ε σ (Message T R)) (message : Message T R)
    (state : FanOut T R × σ) : Offered ε (FanOut T R × σ) (Message T R) :=
  let turned := turn medium message.time state
  match turned.fault with
  | some _ => { toAttempt := turned, slot := some message }
  | none =>
    let (fan, state) := turned.state
    let (dealt, untouched) :=
      deal medium message.time message.data ({ fan with current := some message.time }, state)
    let data := match dealt.fault with
      | none => []
      | some _ =>
        (message.data.take (message.data.length - untouched.length)).map husk ++ untouched
    { toAttempt := dealt, slot := some { message with data } }

/-- Takes a slot. With a single destination nothing is distributed: the slot goes straight to it,
and messages keep their bounds. -/
def push [DecidableEq T] [Husk R] (medium : Medium ε σ (Message T R))
    (slot : Option (Message T R)) :
    FanOut T R × σ → Offered ε (FanOut T R × σ) (Message T R)
  | (fan, state) =>
    match fan.lanes, slot with
    | [lane], slot =>
      let offered := Sender.push medium 0 slot (lane.sender, state)
      { fault := offered.fault
        state := ({ fan with lanes := [{ lane with sender := offered.state.1 }] }, offered.state.2)
        slot := offered.slot }
    | _, none => { toAttempt := close medium (fan, state), slot := none }
    | _, some message => distribute medium message (fan, state)

end FanOut

end Dataflow
