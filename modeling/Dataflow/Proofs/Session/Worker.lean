import Dataflow.Proofs.FanOut.Morphism
import Dataflow.Proofs.Session.Pipeline
import Dataflow.Proofs.Worker.Agent

/-! Calls of a worker that no other worker interrupts. Run to its end at once, each call on a private
queue or on the mailboxes of a channel does to the world what the step of a session does that makes
or uses the same edge, and it leaves the same edge. -/
namespace Dataflow

variable {τ ε T R : Type}

namespace Edge

/-- What an edge takes out it reports as a worker does. -/
theorem pull_of_take {edge : Edge τ T R} {receiver : Receiver}
    (hReceiver : edge.receiver = some receiver) {world world' : World τ (Message T R)}
    {message : Option (Message T R)} {outlet : Outlet T R}
    (hTake : Outlet.take (edge.outlet, world) = (message, outlet, world')) (worker : Nat) :
    Edge.pull (edge, world) = (message, { edge with outlet },
      (Pipe.reports receiver message.toList).foldl (World.perform · worker) world') := by
  simp only [Edge.pull, hTake, Edge.report, hReceiver, Pipe.reports]
  cases message with
  | none => cases receiver.sink <;> rfl
  | some message => cases receiver.sink <;> rfl

/-- A pull from the mailboxes takes the oldest message out of the owner's. -/
theorem pull_mailboxes {edge : Edge τ T R} {channel : UInt32} {owner : Nat}
    (hOutlet : edge.outlet = .mailboxes channel owner) (world : World τ (Message T R)) :
    ∃ world', world'.fabric = (world.fabric.take channel owner).2 ∧
      Edge.pull (edge, world) = ((world.fabric.box channel owner).head?, edge, world') := by
  have hTake : Outlet.take (edge.outlet, world) =
      ((world.fabric.box channel owner).head?, edge.outlet, (world.take channel owner).2) := by
    rw [hOutlet]
    rfl
  simp only [Edge.pull, hTake]
  cases (world.fabric.box channel owner).head? with
  | none => exact ⟨_, rfl, rfl⟩
  | some message => exact ⟨_, report_fabric _ message _, rfl⟩

end Edge

/-- Acts of a worker that are performed at once are the offers of an edge of the mailboxes. -/
theorem outbox_morphism (channel : UInt32) (worker : Nat) (world : World τ (Message T R)) :
    (outbox channel).Morphism Empty.elim id
      (fun acts => (.mailboxes channel worker, acts.toList.foldl (World.perform · worker) world))
      (Outlet.medium (τ := τ) (T := T) (R := R)) where
  note sink event acts := by
    cases sink with
    | none => rfl
    | some sink =>
        simp only [Medium.noteTo, outbox, Array.toList_push, List.foldl_append]
        rfl
  offer dst slot acts := by
    cases slot with
    | none => rfl
    | some message =>
        simp only [outbox, Offered.map, Attempt.map, Array.toList_push, List.foldl_append]
        rfl

variable [DecidableEq τ]

namespace Pipe

/-- The private queue as an edge of a session. -/
def edge (kind : τ) (pipe : Pipe T R) : Edge τ T R where
  kind := kind
  front := .sender pipe.sender
  outlet := .queue pipe.waiting
  receiver := some pipe.receiver

/-- Connecting to a private queue never fails, and makes the edge that a session makes. -/
theorem run_connect {session : Session τ T R} (hHost : session.host = .shared) {context : Context}
    (hWorker : session.hasWorker context.index = true) {connection : Connection τ T R}
    (hPact : connection.pact = .pipeline context.index)
    (hSink : context.sink = connection.tracing.sink context.word) :
    ∃ pipe world', World.run context.index (Pipe.connect context connection.channel
          connection.address : Program τ (Message T R) ε _) session.world =
        (.returned pipe, world') ∧
      session.connect connection = (.ok (pipe.edge connection.kind), world') := by
  have hIndex : session.index context.index = context.word := by rw [Session.index, hHost]; rfl
  refine ⟨_, _, rfl, ?_⟩
  simp only [Session.connect, hPact, hWorker, if_true, Session.openQueue, hIndex, ← hSink]
  rfl

/-- A push appends to the private queue, as it does to that of the edge. -/
theorem run_push [DecidableEq T] [Husk R] (kind : τ) (worker : Nat) (slot : Option (Message T R))
    (pipe : Pipe T R) (world : World τ (Message T R)) :
    ∃ after world', World.run worker (pipe.push slot : Program τ (Message T R) ε _) world =
        (.returned after, world') ∧
      Edge.push 0 slot (pipe.edge kind, world) =
        { state := (after.edge kind, world'), slot := none } := by
  obtain ⟨sender, receiver, waiting⟩ := pipe
  refine ⟨_, _, World.run_script worker _ (.finish _) world, ?_⟩
  cases slot with
  | none => rfl
  | some message =>
      simp only [Edge.push, edge, Sender.push, Medium.noteTo]
      cases sender.sink <;> rfl

/-- A pull takes the oldest message out of the private queue. -/
theorem run_pull (kind : τ) (worker : Nat) (pipe : Pipe T R) (world : World τ (Message T R)) :
    ∃ message after world',
      World.run worker (pipe.pull : Program τ (Message T R) ε _) world =
        (.returned (message, after), world') ∧
      Edge.pull (pipe.edge kind, world) = (message, after.edge kind, world') := by
  refine ⟨_, _, _, World.run_script worker _ (.finish _) world, ?_⟩
  exact Edge.pull_of_take rfl rfl worker

end Pipe

namespace Exchange

/-- The worker's end as an edge of a session. -/
def edge (kind : τ) (worker : Nat) (exchange : Exchange T R) : Edge τ T R where
  kind := kind
  front := .fanOut exchange.fan
  outlet := .mailboxes exchange.channel worker
  receiver := some exchange.receiver

/-- A connect fails where the step does, and with the same error. All it does besides is that the
failing worker leaves a line in the log. -/
theorem run_connect {session : Session τ T R} (hHost : session.host = .shared) {context : Context}
    (hWorker : session.hasWorker context.index = true) {connection : Connection τ T R}
    {hash : R → UInt64}
    (hPact : connection.pact = .exchange context.index hash context.config.capacity)
    (hSink : context.sink = connection.tracing.sink context.word) :
    let program : Program τ (Message T R) WorkerError (Exchange T R) :=
      Exchange.connect context connection.channel connection.kind connection.address hash
    let ran := World.run context.index program session.world
    match session.connect connection with
    | (.ok edge, world') => ∃ exchange, ran = (.returned exchange, world') ∧
        edge = exchange.edge connection.kind context.index
    | (.error error, world') =>
        ran = (.failed (.connect error), world'.logFailure context.index) := by
  intro program ran
  have hIndex : session.index context.index = context.word := by rw [Session.index, hHost]; rfl
  have hRan : ran = World.run context.index program session.world := rfl
  simp only [program, Exchange.connect, World.run] at hRan
  simp only [Session.connect, hPact, hWorker, if_true, Session.openExchange, hHost, hIndex]
  simp only [World.claim] at hRan ⊢
  cases hClaim : session.world.fabric.claim connection.channel connection.kind context.index with
  | error error =>
      simp only [hClaim] at hRan ⊢
      exact hRan
  | ok fabric =>
      simp only [hClaim] at hRan ⊢
      have hPeers (world : World τ (Message T R)) : Outlet.peers (.mailboxes connection.channel
          context.index, world) = world.fabric.workers := rfl
      simp only [Session.distributing, hPeers, World.log, ← hSink]
      cases hFan : (FanOut.create (Sender.towardsAll connection.channel context.word context.sink
          fabric.workers) context.config.capacity hash : Except FanOutError (FanOut T R)) with
      | error error =>
          simp only [hFan] at hRan ⊢
          exact hRan
      | ok fan =>
          simp only [hFan] at hRan ⊢
          exact ⟨_, hRan, rfl⟩

/-- The acts of a push, performed at once, are the offers of the distributor. -/
theorem run_push [DecidableEq T] [Husk R] (kind : τ) (worker : Nat) (slot : Option (Message T R))
    (exchange : Exchange T R) (world : World τ (Message T R)) :
    ∃ after world', World.run worker (exchange.push slot : Program τ (Message T R) ε _) world =
        (.returned after, world') ∧
      (Edge.push 0 slot (exchange.edge kind worker, world)).toAttempt =
        { state := (after.edge kind worker, world') } := by
  refine ⟨_, _, World.run_script worker _ (.finish _) world, ?_⟩
  have hPush := FanOut.push_through (outbox_morphism exchange.channel worker world) slot
    (exchange.fan, #[])
  rw [FanOut.through_id] at hPush
  have hFault : (FanOut.push (outbox exchange.channel) slot (exchange.fan, #[])).fault = none :=
    Attempt.fault_eq_none _
  simp only [Prod.map, id, List.foldl_nil] at hPush
  simp only [Edge.push, edge, hPush, Offered.map, Attempt.map, hFault]
  rfl

/-- A pull takes the oldest message out of the mailbox. -/
theorem run_pull (kind : τ) (worker : Nat) (exchange : Exchange T R)
    (world : World τ (Message T R)) :
    ∃ message world',
      World.run worker (exchange.pull : Program τ (Message T R) ε _) world =
        (.returned message, world') ∧
      Edge.pull (exchange.edge kind worker, world) =
        (message, exchange.edge kind worker, world') := by
  refine ⟨_, _, World.run_script worker _ (.finish _) _, ?_⟩
  exact Edge.pull_of_take rfl rfl worker

/-- A pull that nobody interrupts returns the oldest message of the worker's own mailbox. -/
theorem run_pulling (kind : τ) (worker : Nat) (exchange : Exchange T R)
    (world : World τ (Message T R)) :
    ∃ world', world'.fabric = (world.fabric.take exchange.channel worker).2 ∧
      World.run worker exchange.pulling world =
        (.returned ((world.fabric.box exchange.channel worker).head?, exchange), world') := by
  obtain ⟨message, world', hRun, hPull⟩ := exchange.run_pull kind worker world
  have hOutlet : (exchange.edge kind worker).outlet = .mailboxes exchange.channel worker := rfl
  obtain ⟨after, hFabric, hHead⟩ := Edge.pull_mailboxes hOutlet world
  rw [hPull] at hHead
  cases hHead
  exact ⟨world', hFabric, World.run_map (·, exchange) hRun⟩

end Exchange

/-- A call on one end of a channel. -/
inductive EdgeCall (T R : Type) where
  | push (slot : Option (Message T R))
  | pull

namespace EdgeCall

variable [DecidableEq T] [Husk R]

def onPipe : EdgeCall T R → Pipe T R → Task τ T R (Pipe T R)
  | push slot, pipe => .emptyHanded (pipe.push slot)
  | pull, pipe => pipe.pull

def onExchange : EdgeCall T R → Exchange T R → Task τ T R (Exchange T R)
  | push slot, exchange => .emptyHanded (exchange.push slot)
  | pull, exchange => exchange.pulling

/-- The use that the steps of a session make of an edge. -/
def use : EdgeCall T R → Edge τ T R × World τ (Message T R) →
    Option (Message T R) × Edge τ T R × World τ (Message T R)
  | push slot, state => (none, (Edge.push 0 slot state).state)
  | pull, state => Edge.pull state

/-- Makes calls in turn, each on the end that the one before it has left, and gathers the messages
that they hand out. -/
def inTurn {E : Type} (task : EdgeCall T R → E → Task τ T R E) :
    List (EdgeCall T R) → E → Program τ (Message T R) WorkerError (List (Message T R) × E)
  | [], held => .finish ([], held)
  | call :: calls, held => (task call held).andThen fun (message, after) =>
      (fun (messages, last) => (message.toList ++ messages, last)) <$> inTurn task calls after

/-- Uses an edge in turn for each call. -/
def useAll : List (EdgeCall T R) → Edge τ T R × World τ (Message T R) →
    List (Message T R) × Edge τ T R × World τ (Message T R)
  | [], state => ([], state)
  | call :: calls, state =>
    let (message, after) := call.use state
    let (messages, last) := useAll calls after
    (message.toList ++ messages, last)

/-- A push that does what the push to the edge does is a call that does. -/
theorem run_push {E : Type} {program : Program τ (Message T R) WorkerError E}
    {edge : E → Edge τ T R} {worker : Nat} {slot : Option (Message T R)} {before : Edge τ T R}
    {world world' : World τ (Message T R)} {after : E}
    (hRun : World.run worker program world = (.returned after, world'))
    (hPush : (Edge.push 0 slot (before, world)).state = (edge after, world')) :
    ∃ message after world',
      World.run worker (Task.emptyHanded program) world = (.returned (message, after), world') ∧
        (push slot).use (before, world) = (message, edge after, world') := by
  refine ⟨none, after, world', World.run_map _ hRun, ?_⟩
  rw [use, hPush]

/-- If a single call, whatever it finds, does what the use of the edge does, so do calls in turn. -/
theorem run_inTurn {E : Type} {task : EdgeCall T R → E → Task τ T R E} {edge : E → Edge τ T R}
    {worker : Nat} (h : ∀ (call : EdgeCall T R) held world, ∃ message after world',
      World.run worker (task call held) world = (.returned (message, after), world') ∧
        call.use (edge held, world) = (message, edge after, world'))
    (calls : List (EdgeCall T R)) (held : E) (world : World τ (Message T R)) :
    ∃ messages last world',
      World.run worker (inTurn task calls held) world = (.returned (messages, last), world') ∧
        useAll calls (edge held, world) = (messages, edge last, world') := by
  induction calls generalizing held world with
  | nil => exact ⟨[], held, world, rfl, rfl⟩
  | cons call calls ih =>
      obtain ⟨message, after, between, hCall, hUse⟩ := h call held world
      obtain ⟨messages, last, world', hCalls, hUses⟩ := ih after between
      refine ⟨message.toList ++ messages, last, world', ?_, ?_⟩
      · rw [inTurn, World.run_andThen hCall]
        exact World.run_map _ hCalls
      · simp only [useAll, hUse, hUses]

end EdgeCall

variable [DecidableEq T] [Husk R]

/-- A worker that nobody interrupts cannot tell its private queue from an edge of a session. -/
theorem Pipe.run_calls (kind : τ) (worker : Nat) (calls : List (EdgeCall T R)) (pipe : Pipe T R)
    (world : World τ (Message T R)) :
    ∃ messages last world',
      World.run worker (EdgeCall.inTurn EdgeCall.onPipe calls pipe) world =
        (.returned (messages, last), world') ∧
      EdgeCall.useAll calls (pipe.edge kind, world) = (messages, last.edge kind, world') := by
  refine EdgeCall.run_inTurn (fun call held world => ?_) calls pipe world
  cases call with
  | push slot =>
      obtain ⟨after, world', hRun, hPush⟩ := held.run_push kind worker slot world
      exact EdgeCall.run_push hRun (congrArg (·.state) hPush)
  | pull => exact held.run_pull kind worker world

/-- Nor can it tell its end of a channel between all workers from one. -/
theorem Exchange.run_calls (kind : τ) (worker : Nat) (calls : List (EdgeCall T R))
    (exchange : Exchange T R) (world : World τ (Message T R)) :
    ∃ messages last world',
      World.run worker (EdgeCall.inTurn EdgeCall.onExchange calls exchange) world =
        (.returned (messages, last), world') ∧
      EdgeCall.useAll calls (exchange.edge kind worker, world) =
        (messages, last.edge kind worker, world') := by
  refine EdgeCall.run_inTurn (fun call held world => ?_) calls exchange world
  cases call with
  | push slot =>
      obtain ⟨after, world', hRun, hPush⟩ := held.run_push kind worker slot world
      exact EdgeCall.run_push hRun (congrArg (·.state) hPush)
  | pull =>
      obtain ⟨message, world', hRun, hPull⟩ := held.run_pull kind worker world
      exact ⟨message, held, world', World.run_map _ hRun, hPull⟩

end Dataflow
