import Dataflow.Session.Basic

/-!
Steps of a session. All workers take turns on one thread, so a step is never interrupted by another.
-/

namespace Dataflow

inductive Step (τ T R : Type) where
  | setLevel (level : Level)
  /-- Makes an edge. It replaces one of the same name, but only on success. -/
  | connect (name : String) (connection : Connection τ T R)
  /-- Offers a message in a slot and keeps the slot. -/
  | push (name : String) (dst : Nat) (message : Message T R)
  /-- Offers a message and forgets the slot. -/
  | send (name : String) (dst : Nat) (message : Message T R)
  /-- Offers an empty slot. -/
  | done (name : String) (dst : Nat)
  /-- Offers a message made of a time and a buffer of records. -/
  | pushBatch (name : String) (dst : Nat) (time : T) (data : List R)
  | pull (name : String)
  | recv (name : String)
  | drain (name : String)
  | info (name : String)
  | buffered (name : String) (dst : Nat)
  | drop (name : String)

/-- What a step gives back. -/
inductive Answer (T R : Type) where
  | nothing
  /-- The slot after a push, or the slot that was pulled. -/
  | slot (content : Option (Message T R))
  /-- The buffer after its records were pushed. -/
  | buffer (records : List R)
  | message (message : Option (Message T R))
  | messages (messages : List (Message T R))
  | count (n : Nat)

inductive StepError where
  | connect (error : ConnectError)
  | refused
  | outOfRange
  /-- No edge has this name. -/
  | noEdge
  deriving DecidableEq

def StepError.ofPush : PushError → StepError
  | .refused => .refused
  | .noDestination => .outOfRange

def StepError.message? : StepError → Option Bytes
  | connect error => error.message?
  | refused => some (Bytes.ascii "recorder: push failed")
  | outOfRange | noEdge => none

/-- All that can be seen of a step. -/
structure Report (τ T R : Type) where
  answer : Answer T R := .nothing
  error : Option StepError := none
  /-- The edge that the step made or used, as it is afterwards. -/
  edge : Option (Edge τ T R) := none
  /-- What recording destinations received during the step. -/
  received : List (Nat × Option (Message T R)) := []
  /-- The remembered events of the step. -/
  events : List Event := []
  /-- What the step wrote to the log. -/
  lines : List Log.Line := []

namespace Session

variable {τ T R : Type}

/-- Offers a slot to an edge. The last component is the slot afterwards. -/
def offer [DecidableEq T] [Husk R] (session : Session τ T R) (name : String) (dst : Nat)
    (slot : Option (Message T R)) :
    Session τ T R × Option StepError × Option (Message T R) :=
  match session.edge? name with
  | none => (session, some .noEdge, slot)
  | some edge =>
    let offered := Edge.push dst slot (edge, session.world)
    let (edge, world) := offered.state
    (({ session with world }).setEdge name edge, offered.fault.map .ofPush, offered.slot)

def receive {α : Type} (session : Session τ T R) (name : String)
    (use : Edge τ T R × World τ (Message T R) → α × Edge τ T R × World τ (Message T R)) :
    Session τ T R × Except StepError α :=
  match session.edge? name with
  | none => (session, .error .noEdge)
  | some edge =>
    let (result, edge, world) := use (edge, session.world)
    (({ session with world }).setEdge name edge, .ok result)

/-- An answer, or no answer because of an error. -/
def answering {α : Type} (result : Except StepError α) (answer : α → Answer T R) :
    Answer T R × Option StepError :=
  match result with
  | .ok value => (answer value, none)
  | .error error => (.nothing, some error)

def perform [DecidableEq τ] [DecidableEq T] [Husk R] (session : Session τ T R) :
    Step τ T R → Session τ T R × Answer T R × Option StepError
  | .setLevel level =>
    let world := { session.world with journal := session.world.journal.setLevel level }
    ({ session with world }, .nothing, none)
  | .connect name connection =>
    match session.connect connection with
    | (.ok edge, world) => (({ session with world }).setEdge name edge, .nothing, none)
    | (.error error, world) => ({ session with world }, .nothing, some (.connect error))
  | .push name dst message =>
    let (session, error, slot) := session.offer name dst (some message)
    (session, .slot slot, error)
  | .send name dst message =>
    let (session, error, _) := session.offer name dst (some message)
    (session, .nothing, error)
  | .done name dst =>
    let (session, error, _) := session.offer name dst none
    (session, .nothing, error)
  | .pushBatch name dst time data =>
    let offer (slot : Option (Message T R)) :
        Offered StepError (Session τ T R) (Message T R) :=
      let (session, fault, slot) := session.offer name dst slot
      { fault, state := session, slot }
    let (attempt, buffer) := Message.pushAt offer time data
    match attempt.fault with
    | none => (attempt.state, .buffer buffer, none)
    | some error => (attempt.state, .nothing, some error)
  | .pull name =>
    let (session, result) := session.receive name Edge.pull
    (session, answering result .slot)
  | .recv name =>
    let (session, result) := session.receive name Edge.pull
    (session, answering result .message)
  | .drain name =>
    let (session, result) := session.receive name Edge.drain
    (session, answering result .messages)
  | .info name => (session, .nothing, if (session.edge? name).isNone then some .noEdge else none)
  | .buffered name dst =>
    match session.edge? name with
    | none => (session, .nothing, some .noEdge)
    | some edge =>
      match edge.buffered? dst with
      | some n => (session, .count n, none)
      | none => (session, .nothing, some .outOfRange)
  | .drop name =>
    ({ session with edges := session.edges.filter (·.1 ≠ name) }, .nothing,
      if (session.edge? name).isNone then some .noEdge else none)

end Session

def Step.name? {τ T R : Type} : Step τ T R → Option String
  | setLevel _ => none
  | connect name _ | push name _ _ | send name _ _ | done name _ | pushBatch name _ _ _ | pull name
  | recv name | drain name | info name | buffered name _ | drop name => some name

/-- What the destinations of an edge have recorded since they were made. -/
def Edge.received {τ T R : Type} (edge : Edge τ T R) : List (Nat × Option (Message T R)) :=
  match edge.outlet with
  | .recorders bank => bank.received.toList
  | .queue _ | .mailboxes _ _ => []

namespace Session

variable {τ T R : Type} [DecidableEq τ] [DecidableEq T] [Husk R]

/-- The edge that a step made or used. A connection that fails makes none, and it does not use the
edge that it was meant to replace. -/
def concerned? (session : Session τ T R) : Step τ T R → Option StepError → Option (Edge τ T R)
  | .connect _ _, some _ => none
  | step, _ => step.name?.bind session.edge?

/-- Performs a step and reports all that it did. -/
def step (session : Session τ T R) (step : Step τ T R) : Session τ T R × Report τ T R :=
  let (after, answer, error) := session.perform step
  let before := step.name?.bind session.edge?
  let edge := after.concerned? step error
  let journal := session.world.journal
  let seen := (before.map fun edge => edge.received.length).getD 0
  (after,
    { answer
      error
      edge
      received := (edge.map fun edge => edge.received.drop seen).getD []
      events := after.world.journal.events.toList.drop journal.events.size
      lines := after.world.journal.logger.lines.toList.drop journal.logger.lines.size })

def run : Session τ T R → List (Step τ T R) → List (Report τ T R)
  | _, [] => []
  | session, step :: steps =>
    let (session, report) := session.step step
    report :: run session steps

end Session

end Dataflow
