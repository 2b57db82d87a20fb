import Dataflow.Edge
import Dataflow.Pact

/-!
Sessions: the edges that the workers of one process hold, by name, and how edges are made.
-/

namespace Dataflow

/-- Where the channels of a session come from. -/
inductive Host where
  /-- One worker without a fabric: all its channels are private queues. -/
  | lone
  /-- The workers of a fabric. -/
  | shared
  deriving DecidableEq

structure Session (τ T R : Type) where
  host : Host
  world : World τ (Message T R)
  edges : List (String × Edge τ T R) := []

namespace Session

variable {τ T R : Type}

/-- A session of a lone worker, or of the workers of a new fabric. -/
def start : Option Nat → Except FabricError (Session τ T R)
  | none => .ok { host := .lone, world := { fabric := { workers := 1 } } }
  | some workers =>
    (Fabric.create workers).map fun fabric => { host := .shared, world := { fabric } }

/-- The number by which a worker is known. -/
def index (session : Session τ T R) (worker : Nat) : UInt32 :=
  match session.host with
  | .lone => 0
  | .shared => UInt32.ofNat worker

def hasWorker (session : Session τ T R) (worker : Nat) : Bool :=
  match session.host with
  | .lone => true
  | .shared => worker < session.world.fabric.workers

def openQueue (session : Session τ T R) (worker : Nat) (connection : Connection τ T R) :
    Outlet T R × World τ (Message T R) :=
  (.queue [],
    session.world.log .debug (session.index worker) connection.channel
      (pipelineNotice connection.address))

/-- Opens a channel between all workers. A claim that is refused leaves no line in the log. -/
def openExchange [DecidableEq τ] (session : Session τ T R) (worker : Nat)
    (connection : Connection τ T R) :
    Except ClaimError (Outlet T R) × World τ (Message T R) :=
  match session.host with
  | .lone =>
    (.ok (.queue []),
      session.world.log .debug 0 connection.channel (soleExchangeNotice connection.address))
  | .shared =>
    match session.world.claim connection.channel connection.kind worker with
    | (.ok peers, world) =>
      (.ok (.mailboxes connection.channel worker),
        world.log .debug (session.index worker) connection.channel
          (exchangeNotice connection.address peers))
    | (.error error, world) => (.error error, world)

/-- The ends of a distributing edge held by worker `index`. -/
def distributing (connection : Connection τ T R) (index : UInt32) (peers : Nat)
    (hash : R → UInt64) (capacity : Nat) (outlet : Outlet T R) :
    Except ConnectError (Edge τ T R) :=
  let channel := connection.channel
  let sink := connection.tracing.sink index
  match FanOut.create (Sender.towardsAll channel index sink peers) capacity hash with
  | .ok fan =>
    let receiver := some { channel, index, sink }
    .ok { kind := connection.kind, front := .fanOut fan, outlet, receiver }
  | .error error => .error (.fanOut error)

/-- The edge of a connection. A channel that was claimed stays claimed if the edge then cannot be
made. -/
def connect [DecidableEq τ] (session : Session τ T R) (connection : Connection τ T R) :
    Except ConnectError (Edge τ T R) × World τ (Message T R) :=
  let world := session.world
  let channel := connection.channel
  let kind := connection.kind
  match connection.pact with
  | .pipeline worker =>
    if session.hasWorker worker then
      let index := session.index worker
      let sink := connection.tracing.sink index
      let (outlet, world) := session.openQueue worker connection
      let front := .sender { channel, source := index, target := index, sink }
      (.ok { kind, front, outlet, receiver := some { channel, index, sink } }, world)
    else (.error .noWorker, world)
  | .barePipeline worker =>
    if session.hasWorker worker then
      let (outlet, world) := session.openQueue worker connection
      (.ok { kind, front := .bare, outlet }, world)
    else (.error .noWorker, world)
  | .exchange worker hash capacity =>
    if session.hasWorker worker then
      match session.openExchange worker connection with
      | (.ok outlet, world) =>
        (distributing connection (session.index worker) (Outlet.peers (outlet, world)) hash capacity
          outlet, world)
      | (.error error, world) => (.error (.claim error), world)
    else (.error .noWorker, world)
  | .bareExchange worker =>
    if session.hasWorker worker then
      match session.openExchange worker connection with
      | (.ok outlet, world) => (.ok { kind, front := .bare, outlet }, world)
      | (.error error, world) => (.error (.claim error), world)
    else (.error .noWorker, world)
  | .loopback source target index =>
    let front := .sender { channel, source, target, sink := connection.tracing.sink source }
    let receiver : Receiver := { channel, index, sink := connection.tracing.sink index }
    (.ok { kind, front, outlet := .queue [], receiver := some receiver }, world)
  | .recordedExchange index hash capacity bank =>
    (distributing connection index bank.pushes.length hash capacity (.recorders bank), world)
  | .recorded index target bank =>
    let front :=
      .sender { channel, source := index, target, sink := connection.tracing.sink index }
    (.ok { kind, front, outlet := .recorders bank }, world)

def edge? (session : Session τ T R) (name : String) : Option (Edge τ T R) :=
  session.edges.lookup name

def setEdge (session : Session τ T R) (name : String) (edge : Edge τ T R) : Session τ T R :=
  { session with edges := (name, edge) :: session.edges.filter (·.1 ≠ name) }

end Session

end Dataflow
