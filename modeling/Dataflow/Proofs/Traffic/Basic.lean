import Dataflow.Proofs.FanOut.Stamps
import Dataflow.Proofs.Worker.Agent
import Mathlib.Logic.Function.Basic

/-! Traffic on one channel between all workers of a fabric. Each worker calls `Exchange.connect`,
`Exchange.push` and `Exchange.pull` as it likes. The acts of a call are performed one by one by
`World.act`, and the acts of different workers interleave in any order. Besides the world only what
each worker holds and its history are kept; no call depends on the history. -/
namespace Dataflow

variable {τ T R E : Type}

namespace Agent

def forwarded (channel : UInt32) (target : Nat) (agent : Agent τ T R E) : List (Message T R) :=
  deliveries channel target agent.performed

/-- What the call that the worker is in is yet to put into a mailbox. -/
def outstanding (channel : UInt32) (target : Nat) (agent : Agent τ T R E) : List (Message T R) :=
  deliveries channel target (agent.task.elim [] Program.effects)

def sent (channel : UInt32) (target : Nat) (agent : Agent τ T R E) : List (Message T R) :=
  deliveries channel target agent.effects

/-- What a worker has sent has been forwarded already or is still to be. -/
theorem sent_eq (channel : UInt32) (target : Nat) (agent : Agent τ T R E) :
    agent.sent channel target =
      agent.forwarded channel target ++ agent.outstanding channel target :=
  deliveries_append channel target agent.performed _

/-- The records that wait for a destination, with the time at which they will be sent. -/
def waiting (target : Nat) (agent : Agent τ T R (Exchange T R)) : List (T × R) :=
  agent.inForce.elim [] fun exchange => exchange.fan.waiting target

end Agent

namespace Traffic

/-- What the workers have to agree on. -/
structure Link (τ R : Type) where
  channel : UInt32
  kind : τ
  hash : R → UInt64

/-- What a worker asks of its own end of the channel. Each worker has its own configuration. -/
inductive Call (T R : Type) where
  | connect (config : Config) (sink : Option Sink) (address : Address)
  /-- Pushes a message or an empty slot. -/
  | push (slot : Option (Message T R))
  | pull

def Call.slots : Call T R → List (Option (Message T R))
  | push slot => [slot]
  | connect _ _ _ | pull => []

def records (slots : List (Option (Message T R))) : List (T × R) :=
  slots.flatMap fun slot => slot.toList.flatMap Message.timed

/-- The program of a call. Only a connect can do without an end of the channel. -/
def Call.task? [DecidableEq T] [Husk R] (link : Link τ R) (worker : Nat)
    (held : Option (Exchange T R)) : Call T R → Option (Task τ T R (Exchange T R))
  | connect config sink address =>
    some (.emptyHanded (Exchange.connect { index := worker, config, sink } link.channel link.kind
      address link.hash))
  | push slot => held.map fun exchange => .emptyHanded (exchange.push slot)
  | pull => held.map Exchange.pulling

def entered [DecidableEq T] [Husk R] (link : Link τ R) (worker : Nat) (call : Call T R)
    (agent : Agent τ T R (Exchange T R)) : Agent τ T R (Exchange T R) :=
  agent.enter (call.task? link worker agent.held) call.slots

inductive Move (T R : Type) where
  | call (worker : Nat) (call : Call T R)
  | act (worker : Nat)

structure State (τ T R : Type) where
  world : World τ (Message T R)
  agent : Nat → Agent τ T R (Exchange T R)

namespace State

def start (world : World τ (Message T R)) : State τ T R where
  world
  agent _ := {}

def turn (state : State τ T R) (worker : Nat) (agent : Agent τ T R (Exchange T R))
    (world : World τ (Message T R)) : State τ T R where
  world
  agent := Function.update state.agent worker agent

section Turn

variable (state : State τ T R) (worker : Nat) (agent : Agent τ T R (Exchange T R))
  (world : World τ (Message T R))

@[simp] theorem turn_world : (state.turn worker agent world).world = world := rfl

@[simp] theorem turn_self : (state.turn worker agent world).agent worker = agent := by
  show Function.update state.agent worker agent worker = agent
  rw [Function.update_self]

theorem turn_agent : state.turn worker (state.agent worker) state.world = state := by
  rw [turn, Function.update_eq_self]

/-- Of two turns of one worker only the second is to be seen. -/
theorem turn_turn (agent' : Agent τ T R (Exchange T R)) (world' : World τ (Message T R)) :
    (state.turn worker agent world).turn worker agent' world' =
      state.turn worker agent' world' := by
  rw [turn, turn, turn, Function.update_idem]

end Turn

@[simp] theorem turn_of_ne {other worker : Nat} (h : other ≠ worker) (state : State τ T R)
    (agent : Agent τ T R (Exchange T R)) (world : World τ (Message T R)) :
    (state.turn worker agent world).agent other = state.agent other := by
  show Function.update state.agent worker agent other = state.agent other
  rw [Function.update_of_ne h]

/-- A turn of one worker leaves the others where they are. -/
theorem forall_turn {P : Nat → Agent τ T R (Exchange T R) → Prop} {state : State τ T R}
    {worker : Nat} {agent : Agent τ T R (Exchange T R)} (hSelf : P worker agent)
    (hOthers : ∀ other, other ≠ worker → P other (state.agent other))
    (world : World τ (Message T R)) (other : Nat) :
    P other ((state.turn worker agent world).agent other) :=
  (Function.forall_update_iff state.agent P).mpr ⟨hSelf, hOthers⟩ other

variable [DecidableEq τ] [DecidableEq T] [Husk R]

def step (link : Link τ R) (state : State τ T R) : Move T R → State τ T R
  | .call worker call =>
    state.turn worker (entered link worker call (state.agent worker)) state.world
  | .act worker =>
    let (agent, world) := (state.agent worker).act worker state.world
    state.turn worker agent world

def run (link : Link τ R) (state : State τ T R) (moves : List (Move T R)) : State τ T R :=
  moves.foldl (step link) state

/-- A worker that is not interrupted acts as it does alone. -/
theorem run_acts (link : Link τ R) (state : State τ T R) (worker count : Nat) :
    state.run link (List.replicate count (.act worker)) =
      state.turn worker (Agent.acts worker count (state.agent worker, state.world)).1
        (Agent.acts worker count (state.agent worker, state.world)).2 := by
  induction count generalizing state with
  | zero => exact (turn_agent state worker).symm
  | succ count ih =>
      rw [List.replicate_succ]
      change (state.step link (.act worker)).run link _ = _
      rw [ih, step, turn_turn, turn_self, turn_world, Agent.acts]

/-- A call that is not interrupted. -/
theorem run_call (link : Link τ R) (state : State τ T R) (worker : Nat) (call : Call T R)
    (count : Nat) :
    state.run link (.call worker call :: List.replicate count (.act worker)) =
      let entering := (entered link worker call (state.agent worker), state.world)
      state.turn worker (Agent.acts worker count entering).1
        (Agent.acts worker count entering).2 := by
  change (state.step link (.call worker call)).run link _ = _
  rw [run_acts, step, turn_turn, turn_self, turn_world]

end State

/-- The messages of a list that name the given worker as their source. -/
def stemming (source : Nat) (messages : List (Message T R)) : List (Message T R) :=
  messages.filter fun message => message.source = UInt32.ofNat source

theorem stemming_append (source : Nat) (first second : List (Message T R)) :
    stemming source (first ++ second) = stemming source first ++ stemming source second :=
  List.filter_append first second

end Traffic

end Dataflow
