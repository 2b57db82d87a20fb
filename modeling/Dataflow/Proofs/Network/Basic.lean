import Dataflow.Proofs.Traffic.Agent

/-! A network of edges over one fabric, all of whose ends report to one memory. An edge between all
workers has an end at each worker; a private one has both its ends at one worker. The acts of a call
are performed one by one by `World.act`, and the acts of different edges interleave in any order,
also those of one worker. -/
namespace Dataflow

variable {τ M ε T R : Type}

/-- Words tell numbers apart that fit into them. -/
theorem eq_of_word_eq {v w : Nat} (hFirst : v < UInt32.size) (hSecond : w < UInt32.size)
    (h : UInt32.ofNat v = UInt32.ofNat w) : v = w := by
  have hNumbers := congrArg UInt32.toNat h
  rw [UInt32.toNat_ofNat_of_lt' hFirst, UInt32.toNat_ofNat_of_lt' hSecond] at hNumbers
  exact hNumbers

def Effect.event? : Effect M → Option Event
  | .note .memory event => some event
  | .note (.text _) _ | .log _ _ _ | .deliver _ _ _ => none

def remembered (effects : List (Effect M)) : List Event := effects.filterMap Effect.event?

theorem remembered_append (first second : List (Effect M)) :
    remembered (first ++ second) = remembered first ++ remembered second :=
  List.filterMap_append

/-- The more has been done, the more is remembered. -/
theorem remembered_mono {first second : List (Effect M)} (h : first <+: second) :
    remembered first <+: remembered second :=
  h.filterMap _

/-- Nothing is remembered of what only goes to the log. -/
theorem remembered_of_logs {effects : List (Effect M)} {channel : UInt32}
    (h : ∀ effect ∈ effects, ∃ level text, effect = .log level channel text) :
    remembered effects = [] := by
  apply List.filterMap_eq_nil_iff.mpr
  intro effect hMem
  obtain ⟨level, text, hLog⟩ := h effect hMem
  rw [hLog]
  rfl

/-- The journal remembers of an effect what it is meant to. -/
theorem World.perform_events (world : World τ M) (worker : Nat) (effect : Effect M) :
    (world.perform worker effect).journal.events.toList =
      world.journal.events.toList ++ remembered [effect] := by
  cases effect with
  | log level channel text => exact (List.append_nil _).symm
  | deliver channel target message => exact (List.append_nil _).symm
  | note sink event =>
      cases sink with
      | memory => exact world.journal.note_memory_events event
      | text worker => exact (List.append_nil _).symm

/-- The event of a message that passes an end of a channel. The source is the one it carries. -/
def Message.event (isSend : Bool) (channel target : UInt32) (message : Message T R) : Event where
  isSend := isSend
  channel := channel
  source := message.source
  target := target
  seq := message.seq
  length := UInt64.ofNat message.length

/-- What tells the messages of one source to one target apart: number and length. -/
def Event.mark (event : Event) : UInt64 × UInt64 := (event.seq, event.length)

def Message.mark (message : Message T R) : UInt64 × UInt64 :=
  (message.seq, UInt64.ofNat message.length)

/-- The event is of a message on this channel from this source to this target, at its sending end
or at its receiving end. -/
def Event.Crosses (isSend : Bool) (channel source target : UInt32) (event : Event) : Prop :=
  event.isSend = isSend ∧ event.channel = channel ∧ event.source = source ∧ event.target = target

instance (isSend : Bool) (channel source target : UInt32) (event : Event) :
    Decidable (event.Crosses isSend channel source target) :=
  inferInstanceAs (Decidable (_ ∧ _ ∧ _ ∧ _))

/-- The marks of all messages that were sent, or received, on this channel from this source to this
target, in order. -/
def marks (isSend : Bool) (channel source target : UInt32) (events : List Event) :
    List (UInt64 × UInt64) :=
  (events.filter (·.Crosses isSend channel source target)).map Event.mark

section Marks

variable {isSend : Bool} {channel source target : UInt32}

theorem marks_append (first second : List Event) :
    marks isSend channel source target (first ++ second) =
      marks isSend channel source target first ++ marks isSend channel source target second := by
  rw [marks, List.filter_append, List.map_append, marks, marks]

theorem marks_mono {first second : List Event} (h : first <+: second) :
    marks isSend channel source target first <+: marks isSend channel source target second :=
  (h.filter _).map _

/-- An event about a message carries the mark of the message. -/
theorem marks_event {message : Message T R} (h : message.source = source) :
    marks isSend channel source target [message.event isSend channel target] = [message.mark] := by
  have hCrosses : (message.event isSend channel target).Crosses isSend channel source target :=
    ⟨rfl, rfl, h, rfl⟩
  rw [marks, List.filter_cons_of_pos (by simpa using hCrosses)]
  rfl

/-- Events about other channels or workers leave no marks. -/
theorem marks_of_not_crosses {event : Event} (h : ¬event.Crosses isSend channel source target) :
    marks isSend channel source target [event] = [] := by
  rw [marks, List.filter_cons_of_neg (by simpa using h)]
  rfl

end Marks

namespace Network

/-- Where an edge is. A worker may have any number of private edges on one channel. -/
inductive Place (workers : Nat) where
  | exchange (channel : UInt32) (worker : Fin workers)
  | pipe (channel : UInt32) (worker : Fin workers) (name : Nat)
  deriving DecidableEq

namespace Place

variable {workers : Nat}

def channel : Place workers → UInt32
  | exchange channel _ | pipe channel _ _ => channel

def worker : Place workers → Fin workers
  | exchange _ worker | pipe _ worker _ => worker

/-- What a worker holds of an edge once it is connected. -/
@[reducible] def End (T R : Type) : Place workers → Type
  | exchange _ _ => Exchange T R
  | pipe _ _ _ => Pipe T R

end Place

/-- What is asked of an edge. A private edge needs neither kind nor hash. -/
inductive Call (τ T R : Type) where
  | connect (kind : τ) (hash : R → UInt64) (config : Config) (address : Address)
  /-- Pushes a message or an empty slot. -/
  | push (slot : Option (Message T R))
  | pull

/-- The program of a call. All edges report to memory. A worker may ask for a channel again, which
is then refused; a private edge is connected once. -/
def Call.task? [DecidableEq T] [Husk R] {workers : Nat} (place : Place workers)
    (held : Option (place.End T R)) (call : Call τ T R) : Option (Task τ T R (place.End T R)) :=
  match place, held, call with
  | .exchange channel worker, _, connect kind hash config address =>
    some (.emptyHanded (Exchange.connect { index := worker, config, sink := some .memory } channel
      kind address hash))
  | .exchange _ _, held, push slot => held.map fun exchange => .emptyHanded (exchange.push slot)
  | .exchange _ _, held, pull => held.map Exchange.pulling
  | .pipe channel worker _, none, connect _ _ config address =>
    some (.emptyHanded (Pipe.connect { index := worker, config, sink := some .memory } channel
      address))
  | .pipe _ _ _, some _, connect _ _ _ _ => none
  | .pipe _ _ _, held, push slot => held.map fun pipe => .emptyHanded (pipe.push slot)
  | .pipe _ _ _, held, pull => held.map Pipe.pull

def Call.slots : Call τ T R → List (Option (Message T R))
  | push slot => [slot]
  | connect _ _ _ _ | pull => []

inductive Move (workers : Nat) (τ T R : Type) where
  | call (place : Place workers) (call : Call τ T R)
  | act (place : Place workers)

def Move.place {workers : Nat} : Move workers τ T R → Place workers
  | call place _ | act place => place

structure State (workers : Nat) (τ T R : Type) where
  world : World τ (Message T R)
  agent : (place : Place workers) → Agent τ T R (place.End T R)

namespace State

variable {workers : Nat}

def start (world : World τ (Message T R)) : State workers τ T R where
  world
  agent _ := {}

def events (state : State workers τ T R) : List Event := state.world.journal.events.toList

def turn (state : State workers τ T R) (place : Place workers)
    (agent : Agent τ T R (place.End T R)) (world : World τ (Message T R)) :
    State workers τ T R where
  world
  agent := Function.update state.agent place agent

@[simp] theorem turn_world (state : State workers τ T R) (place : Place workers)
    (agent : Agent τ T R (place.End T R)) (world : World τ (Message T R)) :
    (state.turn place agent world).world = world :=
  rfl

@[simp] theorem turn_self (state : State workers τ T R) (place : Place workers)
    (agent : Agent τ T R (place.End T R)) (world : World τ (Message T R)) :
    (state.turn place agent world).agent place = agent := by
  show Function.update state.agent place agent place = agent
  rw [Function.update_self]

@[simp] theorem turn_of_ne {other place : Place workers} (h : other ≠ place)
    (state : State workers τ T R) (agent : Agent τ T R (place.End T R))
    (world : World τ (Message T R)) :
    (state.turn place agent world).agent other = state.agent other := by
  show Function.update state.agent place agent other = state.agent other
  rw [Function.update_of_ne h]

/-- A turn of one edge leaves the others as they are. -/
theorem forall_turn {P : (place : Place workers) → Agent τ T R (place.End T R) → Prop}
    {state : State workers τ T R} {place : Place workers} {agent : Agent τ T R (place.End T R)}
    (hSelf : P place agent) (hOthers : ∀ other, other ≠ place → P other (state.agent other))
    (world : World τ (Message T R)) (other : Place workers) :
    P other ((state.turn place agent world).agent other) :=
  (Function.forall_update_iff state.agent P).mpr ⟨hSelf, hOthers⟩ other

variable [DecidableEq τ] [DecidableEq T] [Husk R]

def step (state : State workers τ T R) : Move workers τ T R → State workers τ T R
  | .call place call =>
    let agent := state.agent place
    state.turn place (agent.enter (call.task? place agent.held) call.slots) state.world
  | .act place =>
    let (agent, world) := (state.agent place).act place.worker state.world
    state.turn place agent world

def run (state : State workers τ T R) (moves : List (Move workers τ T R)) :
    State workers τ T R :=
  moves.foldl step state

/-- Moves may be made in two parts. -/
theorem run_append (state : State workers τ T R) (first second : List (Move workers τ T R)) :
    state.run (first ++ second) = (state.run first).run second :=
  List.foldl_append

/-- A move of another edge. -/
theorem agent_step_of_ne {place : Place workers} {move : Move workers τ T R}
    (h : place ≠ move.place) (state : State workers τ T R) :
    (state.step move).agent place = state.agent place := by
  cases move with
  | call other call => exact turn_of_ne h state _ _
  | act other => exact turn_of_ne h state _ _

/-- An edge of which nothing is asked stays as it is. -/
theorem agent_run_of_ne {place : Place workers} {moves : List (Move workers τ T R)}
    (h : ∀ move ∈ moves, place ≠ move.place) (state : State workers τ T R) :
    (state.run moves).agent place = state.agent place := by
  induction moves generalizing state with
  | nil => rfl
  | cons move rest ih =>
      have hRest := ih (fun other hOther => h other (List.mem_cons_of_mem _ hOther))
        (state.step move)
      exact hRest.trans (agent_step_of_ne (h move List.mem_cons_self) state)

end State

end Network

end Dataflow
