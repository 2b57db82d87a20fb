import Dataflow.Proofs.Network.Agent
import Dataflow.Proofs.Traffic.Invariant

/-! What holds of a network in every reachable state. Every edge is in order; what has reached a
worker on a channel is, for each source, what that source has delivered; and the memory is an
interleaving of what the edges have announced. -/
namespace Dataflow.Network

variable {τ T R : Type} {workers : Nat}

namespace Place

def Sound : (place : Place workers) → Agent τ T R (place.End T R) → Prop
  | exchange channel worker, agent => Exchange.Sound workers channel worker agent
  | pipe channel worker _, agent => Pipe.Sound channel (UInt32.ofNat worker) agent

theorem Sound.start (place : Place workers) :
    place.Sound ({} : Agent τ T R (place.End T R)) := by
  cases place with
  | exchange channel worker => exact Exchange.Sound.start
  | pipe channel worker name => exact Pipe.Sound.start

/-- Entering a call keeps the end of a channel sound. -/
theorem Sound.enter [DecidableEq T] [Husk R] {place : Place workers}
    {agent : Agent τ T R (place.End T R)} (h : place.Sound agent) (call : Call τ T R) :
    place.Sound (agent.enter (call.task? place agent.held) call.slots) := by
  cases place with
  | exchange channel worker => exact Exchange.Sound.enter h call
  | pipe channel worker name => exact Pipe.Sound.enter h call

/-- An act of a private edge is a step of a straight call. -/
def Acted [DecidableEq τ] : (place : Place workers) → Agent τ T R (place.End T R) →
    World τ (Message T R) → Agent τ T R (place.End T R) → World τ (Message T R) → Prop
  | exchange channel worker, before, world, after, world' =>
    Agent.Acted channel worker before world after world'
  | pipe _ worker _, before, world, after, world' =>
    Agent.Strode worker before world after world'

/-- So does every act. -/
theorem Sound.acted [DecidableEq τ] {place : Place workers} {agent : Agent τ T R (place.End T R)}
    (h : place.Sound agent) {world : World τ (Message T R)}
    (hCount : world.fabric.workers = workers) :
    place.Acted agent world (agent.act place.worker world).1 (agent.act place.worker world).2 ∧
      place.Sound (agent.act place.worker world).1 := by
  cases place with
  | exchange channel worker => exact Exchange.Sound.act h hCount
  | pipe channel worker name => exact Pipe.Sound.act h worker world

end Place

namespace State

/-- All messages that have reached a worker on a channel: those it has taken out of its mailbox, and
then those that are still there. -/
def reached (state : State workers τ T R) (channel : UInt32) (target : Fin workers) :
    List (Message T R) :=
  (state.agent (.exchange channel target)).taken ++ state.world.fabric.box channel target

def delivered (state : State workers τ T R) (channel : UInt32) (source target : Fin workers) :
    List (Message T R) :=
  deliveries channel target (state.agent (.exchange channel source)).performed

end State

structure Invariant (state : State workers τ T R) : Prop where
  count : state.world.fabric.workers = workers
  regular : state.world.fabric.Regular
  sound : ∀ place : Place workers, place.Sound (state.agent place)
  claimed : ∀ channel worker, (state.agent (.exchange channel worker)).inForce ≠ none →
    state.world.fabric.Claimed channel worker
  arrived : ∀ (channel : UInt32) (source target : Fin workers),
    Traffic.stemming source (state.reached channel target) =
      state.delivered channel source target
  /-- Events of which only one edge can be the origin are in memory just as it announced them. -/
  interleaved : ∀ (p : Event → Bool) (place : Place workers),
    (∀ other, other ≠ place → ∀ event ∈ remembered (state.agent other).performed,
      p event = false) →
    state.events.filter p = (remembered (state.agent place).performed).filter p

theorem mem_deliveries {M : Type} {channel : UInt32} {target : Nat} {message : M}
    {effects : List (Effect M)} (h : message ∈ deliveries channel target effects) :
    .deliver channel target message ∈ effects := by
  obtain ⟨effect, hEffect, hDelivered⟩ := List.mem_filterMap.mp h
  cases effect with
  | log level c text => cases hDelivered
  | note sink event => cases hDelivered
  | deliver c t other =>
      obtain ⟨hPlace, hMessage⟩ := Option.ite_none_right_eq_some.mp hDelivered
      rw [← hPlace.1, ← hPlace.2, ← Option.some.inj hMessage]
      exact hEffect

namespace Invariant

theorem start (logger : Log.Logger) :
    Invariant (State.start { fabric := { workers }, journal := { logger } } :
      State workers τ T R) where
  count := rfl
  regular channel found hFound := by cases hFound
  sound place := .start place
  claimed channel worker hSome := absurd rfl hSome
  arrived channel source target := rfl
  interleaved p place hOthers := rfl

variable {state : State workers τ T R} {place : Place workers}
  {after : Agent τ T R (place.End T R)} {world' : World τ (Message T R)}

/-- Only an edge that has claimed the channel can deliver on it. -/
theorem of_deliver_mem (h : Invariant state) {channel : UInt32} {target : Nat}
    {message : Message T R}
    (hMem : .deliver channel target message ∈ (state.agent place).effects) :
    ∃ worker, place = .exchange channel worker ∧ target < workers ∧
      message.source = UInt32.ofNat worker ∧ state.world.fabric.Claimed channel worker := by
  have hSound := h.sound place
  cases place with
  | exchange c worker =>
      have hSound : Exchange.Sound workers c worker _ := hSound
      obtain ⟨hChannel, hTarget, hSource⟩ := hSound.chronicle.of_deliver_mem hMem
      subst hChannel
      have hHeld := hSound.held_of_deliver hMem
      exact ⟨worker, rfl, hTarget, hSource, h.claimed _ _ (Agent.inForce_ne_none hHeld)⟩
  | pipe c worker name =>
      have hSound : Pipe.Sound c (UInt32.ofNat worker) _ := hSound
      exact absurd hMem (hSound.chronicle.not_deliver_mem channel target message)

/-- An effect that is performed reaches its worker, under the name of its source. -/
theorem reached_effect (h : Invariant state) (hWorkers : workers < UInt32.size)
    {effect : Effect (Message T R)} (hEffect : effect ∈ (state.agent place).effects)
    (hTaken : after.taken = (state.agent place).taken)
    (hPerformed : after.performed = (state.agent place).performed ++ [effect])
    (hWorld : world' = state.world.perform place.worker effect) (channel : UInt32)
    (target : Fin workers) :
    (state.turn place after world').reached channel target =
        state.reached channel target ++ deliveries channel target [effect] ∧
      ∀ source : Fin workers, (state.turn place after world').delivered channel source target =
        state.delivered channel source target ++
          Traffic.stemming source (deliveries channel target [effect]) := by
  have hOrigin (message : Message T R) (hMessage : message ∈ deliveries channel target [effect]) :
      ∃ worker, place = .exchange channel worker ∧ target < workers ∧
        message.source = UInt32.ofNat worker ∧ state.world.fabric.Claimed channel worker := by
    rw [← List.mem_singleton.mp (mem_deliveries hMessage)] at hEffect
    exact h.of_deliver_mem hEffect
  constructor
  · -- A sender has claimed the channel, and that claim made the mailboxes of all workers.
    have hBox : deliveries channel target [effect] ≠ [] →
        (state.world.fabric.box? channel target).isSome := by
      intro hSome
      obtain ⟨message, hMessage⟩ := List.exists_mem_of_ne_nil _ hSome
      obtain ⟨worker, -, hTarget, -, hClaimed⟩ := hOrigin message hMessage
      exact hClaimed.box?_isSome h.regular (h.count.symm ▸ hTarget)
    have hSame := State.forall_turn
      (P := fun other agent => agent.taken = (state.agent other).taken) hTaken
      (fun _ _ => rfl) world' (.exchange channel target)
    rw [State.reached, hSame, State.turn_world, hWorld, World.box_perform hBox,
      ← List.append_assoc, State.reached]
  · intro source
    by_cases hPlace : .exchange channel source = place
    · subst hPlace
      have hOwn : ∀ message ∈ deliveries channel target [effect],
          message.source = UInt32.ofNat source := by
        intro message hMessage
        obtain ⟨worker, hSame, -, hSource, -⟩ := hOrigin message hMessage
        cases hSame
        exact hSource
      rw [State.delivered, State.turn_self, hPerformed, deliveries_append, State.delivered]
      congr 1
      exact (List.filter_eq_self.mpr fun message hMessage =>
        decide_eq_true (hOwn message hMessage)).symm
    · have hNone : Traffic.stemming source (deliveries channel target [effect]) = [] := by
        apply List.filter_eq_nil_iff.mpr
        intro message hMessage hSource
        obtain ⟨worker, hSame, -, hMark, -⟩ := hOrigin message hMessage
        rw [decide_eq_true_eq, hMark] at hSource
        have hWorker := eq_of_word_eq (Nat.lt_trans worker.isLt hWorkers)
          (Nat.lt_trans source.isLt hWorkers) hSource
        rw [hSame, Fin.ext hWorker] at hPlace
        exact hPlace rfl
      rw [hNone, List.append_nil, State.delivered, State.turn_of_ne hPlace, State.delivered]

/-- What a worker takes out of its mailbox had reached it before. -/
theorem reached_take {channel : UInt32} {worker : Fin workers}
    {after : Agent τ T R (Exchange T R)}
    (hTaken : after.taken = (state.agent (.exchange channel worker)).taken ++
      (state.world.take channel worker).1.toList)
    (c : UInt32) (target : Fin workers) :
    (state.turn (.exchange channel worker) after (state.world.take channel worker).2).reached c
      target = state.reached c target := by
  rw [State.reached, State.reached, State.turn_world]
  by_cases hPlace : Place.exchange c target = .exchange channel worker
  · cases hPlace
    have hBox : (state.world.take channel worker).2.fabric.box channel worker =
        (state.world.fabric.box channel worker).tail :=
      Fabric.box_take_self state.world.fabric channel worker
    rw [State.turn_self, hTaken, hBox, List.append_assoc]
    congr 1
    -- What is taken goes behind what was taken before, which is where it stood.
    change (state.world.fabric.box channel worker).head?.toList ++ _ = _
    cases state.world.fabric.box channel worker <;> rfl
  · have hBox : (state.world.take channel worker).2.fabric.box c target =
        state.world.fabric.box c target := by
      apply Fabric.box_editBox_of_ne
      rintro ⟨hChannel, hWorker⟩
      rw [hChannel, Fin.ext hWorker] at hPlace
      exact hPlace rfl
    rw [State.turn_of_ne hPlace, hBox]

/-- An act that performs nothing delivers nothing. -/
theorem delivered_of_idle (hPerformed : after.performed = (state.agent place).performed)
    (world' : World τ (Message T R)) (channel : UInt32) (source target : Fin workers) :
    (state.turn place after world').delivered channel source target =
      state.delivered channel source target ++ Traffic.stemming source [] := by
  have hSame := State.forall_turn
    (P := fun other agent => agent.performed = (state.agent other).performed) hPerformed
    (fun _ _ => rfl) world' (.exchange channel source)
  rw [State.delivered, hSame, State.delivered]
  exact (List.append_nil _).symm

/-- An act that takes nothing and leaves the mailboxes alone. What is taken from a private queue is
no matter. -/
theorem reached_of_idle {channel : UInt32} {target : Fin workers}
    (hTaken : .exchange channel target = place → after.taken = (state.agent place).taken)
    (hBox : world'.fabric.box channel target = state.world.fabric.box channel target) :
    (state.turn place after world').reached channel target =
      state.reached channel target ++ [] := by
  have hSame := State.forall_turn
    (P := fun other agent => .exchange channel target = other →
      agent.taken = (state.agent other).taken)
    hTaken (fun _ _ _ => rfl) world' (.exchange channel target) rfl
  rw [State.reached, hSame, State.turn_world, hBox, List.append_nil, State.reached]

theorem reached_strode (h : Invariant state) (hWorkers : workers < UInt32.size)
    (hStrode : Agent.Strode place.worker (state.agent place) state.world after world')
    (channel : UInt32) (target : Fin workers) :
    ∃ fresh, (state.turn place after world').reached channel target =
        state.reached channel target ++ fresh ∧
      ∀ source : Fin workers, (state.turn place after world').delivered channel source target =
        state.delivered channel source target ++ Traffic.stemming source fresh := by
  cases hStrode with
  | silent onward hPerformed hFabric =>
      refine ⟨[], reached_of_idle (fun _ => onward.taken) ?_, fun source => ?_⟩
      · rw [hFabric]
      · exact delivered_of_idle hPerformed world' channel source target
  | effect effect onward hPerformed hWorld =>
      have hEffect : effect ∈ (state.agent place).effects := by
        rw [← onward.effects]
        apply after.performed_prefix_effects.subset
        rw [hPerformed]
        exact List.mem_append_right _ (List.mem_singleton_self effect)
      exact ⟨_, h.reached_effect hWorkers hEffect onward.taken hPerformed hWorld channel target⟩

variable [DecidableEq τ]

/-- What an act adds to what has reached a worker is what the act delivers. -/
theorem reached_act (h : Invariant state) (hWorkers : workers < UInt32.size)
    (hActed : place.Acted (state.agent place) state.world after world') (channel : UInt32)
    (target : Fin workers) :
    ∃ fresh, (state.turn place after world').reached channel target =
        state.reached channel target ++ fresh ∧
      ∀ source : Fin workers, (state.turn place after world').delivered channel source target =
        state.delivered channel source target ++ Traffic.stemming source fresh := by
  cases place with
  | pipe c worker name =>
      have hStrode : Agent.Strode (Place.pipe c worker name).worker (state.agent _) state.world
          after world' := hActed
      exact h.reached_strode hWorkers hStrode channel target
  | exchange c worker =>
      cases hActed with
      | strode hStrode =>
          have hStrode : Agent.Strode (Place.exchange c worker).worker (state.agent _) state.world
              after world' := hStrode
          exact h.reached_strode hWorkers hStrode channel target
      | claim kind hClaim hPerformed hTaken =>
          have hBox := Fabric.box_claim hClaim channel target
          exact ⟨[], reached_of_idle (fun _ => hTaken) hBox,
            fun source => delivered_of_idle hPerformed world' channel source target⟩
      | take hInForce hPerformed hTaken hWorld =>
          rw [hWorld]
          refine ⟨[], ?_, fun source => delivered_of_idle hPerformed _ channel source target⟩
          rw [reached_take hTaken, List.append_nil]

/-- No act takes anything of the fabric back. -/
theorem moved (hActed : place.Acted (state.agent place) state.world after world') :
    state.world.fabric.Moved world'.fabric := by
  cases place with
  | pipe channel worker name => exact Agent.Strode.moved hActed
  | exchange channel worker =>
      cases hActed with
      | strode hStrode => exact hStrode.moved
      | claim kind hClaim hPerformed hTaken => exact .claim hClaim
      | take hInForce hPerformed hTaken hWorld =>
          rw [hWorld]
          exact .edit channel worker List.tail

/-- A worker with an end of a channel has claimed the channel. -/
theorem claimed_act (h : Invariant state)
    (hActed : place.Acted (state.agent place) state.world after world') (channel : UInt32)
    (worker : Fin workers)
    (hInForce : ((state.turn place after world').agent (.exchange channel worker)).inForce ≠ none) :
    world'.fabric.Claimed channel worker := by
  have hMoved := moved hActed
  by_cases hPlace : .exchange channel worker = place
  · subst hPlace
    rw [State.turn_self] at hInForce
    cases hActed with
    | strode hStrode =>
        have hSame := hStrode.onward.inForce
        exact hMoved.claimed (h.claimed channel worker fun hNone => hInForce (hSame.trans hNone))
    | claim kind hClaim hPerformed hTaken => exact Fabric.claimed_of_claim hClaim
    | take hSame hPerformed hTaken hWorld =>
        exact hMoved.claimed (h.claimed channel worker fun hNone => hInForce (hSame.trans hNone))
  · rw [State.turn_of_ne hPlace] at hInForce
    exact hMoved.claimed (h.claimed channel worker hInForce)

omit [DecidableEq τ] in
/-- What an edge announces goes behind all that is in memory. -/
theorem interleaved_act (h : Invariant state) {fresh : List (Effect (Message T R))}
    (hPerformed : after.performed = (state.agent place).performed ++ fresh)
    (hEvents : world'.journal.events.toList = state.events ++ remembered fresh)
    (p : Event → Bool) (origin : Place workers)
    (hOthers : ∀ other, other ≠ origin →
      ∀ event ∈ remembered ((state.turn place after world').agent other).performed,
        p event = false) :
    (state.turn place after world').events.filter p =
      (remembered ((state.turn place after world').agent origin).performed).filter p := by
  have hBefore : ∀ other, other ≠ origin → ∀ event ∈ remembered (state.agent other).performed,
      p event = false := by
    intro other hOther event hEvent
    refine hOthers other hOther event ?_
    by_cases hPlace : other = place
    · subst hPlace
      rw [State.turn_self, hPerformed, remembered_append]
      exact List.mem_append_left _ hEvent
    · rw [State.turn_of_ne hPlace]
      exact hEvent
  rw [State.events, State.turn_world, hEvents, List.filter_append, h.interleaved p origin hBefore]
  by_cases hPlace : origin = place
  · subst hPlace
    rw [State.turn_self, hPerformed, remembered_append, List.filter_append]
  · have hNone : (remembered fresh).filter p = [] := by
      apply List.filter_eq_nil_iff.mpr
      intro event hEvent hSome
      have hOther := hOthers place (Ne.symm hPlace) event (by
        rw [State.turn_self, hPerformed, remembered_append]
        exact List.mem_append_right _ hEvent)
      rw [hOther] at hSome
      cases hSome
    rw [State.turn_of_ne hPlace, hNone, List.append_nil]

/-- One act of a call. -/
theorem act (h : Invariant state) (hWorkers : workers < UInt32.size) (place : Place workers) :
    Invariant (state.turn place ((state.agent place).act place.worker state.world).1
      ((state.agent place).act place.worker state.world).2) := by
  obtain ⟨hActed, hSound⟩ := (h.sound place).acted h.count
  obtain ⟨fresh, hPerformed, hEvents⟩ :=
    (state.agent place).act_remembered place.worker state.world
  exact {
    count := (moved hActed).workers.trans h.count
    regular := (moved hActed).regular h.regular
    sound := State.forall_turn hSound (fun other _ => h.sound other) _
    claimed := h.claimed_act hActed
    arrived := by
      intro channel source target
      obtain ⟨fresh, hReached, hDelivered⟩ := h.reached_act hWorkers hActed channel target
      rw [hReached, Traffic.stemming_append, h.arrived, hDelivered]
    interleaved := h.interleaved_act hPerformed hEvents }

omit [DecidableEq τ] in
/-- No call at an edge between all workers has taken anything when it is entered. -/
theorem taken_enter [DecidableEq T] [Husk R] (call : Call τ T R) {channel : UInt32}
    {target : Fin workers} (hPlace : .exchange channel target = place) :
    ((state.agent place).enter (call.task? place (state.agent place).held) call.slots).taken =
      (state.agent place).taken := by
  subst hPlace
  exact Exchange.taken_enter call

omit [DecidableEq τ] in
/-- Entering a call. Nothing is announced or delivered by that alone. -/
theorem call [DecidableEq T] [Husk R] (h : Invariant state) (place : Place workers)
    (call : Call τ T R) :
    Invariant (state.turn place ((state.agent place).enter
      (call.task? place (state.agent place).held) call.slots) state.world) := by
  have hPerformed := ((state.agent place).enter_history
    (call.task? place (state.agent place).held) call.slots).1
  have hNothing : state.world.journal.events.toList =
      state.events ++ remembered ([] : List (Effect (Message T R))) :=
    (List.append_nil _).symm
  exact {
    count := h.count
    regular := h.regular
    sound := State.forall_turn ((h.sound place).enter call) (fun other _ => h.sound other) _
    claimed := by
      intro channel worker hInForce
      by_cases hPlace : .exchange channel worker = place
      · subst hPlace
        rw [State.turn_self] at hInForce
        exact h.claimed channel worker (Exchange.Sound.inForce_of_enter hInForce)
      · rw [State.turn_of_ne hPlace] at hInForce
        exact h.claimed channel worker hInForce
    arrived := by
      intro channel source target
      rw [reached_of_idle (taken_enter call) rfl, List.append_nil, h.arrived,
        delivered_of_idle hPerformed]
      exact (List.append_nil _).symm
    interleaved := h.interleaved_act (hPerformed.trans (List.append_nil _).symm) hNothing }

variable [DecidableEq T] [Husk R]

/-- One move of any edge. -/
theorem step (h : Invariant state) (hWorkers : workers < UInt32.size) (move : Move workers τ T R) :
    Invariant (state.step move) := by
  cases move with
  | call place call => exact h.call place call
  | act place => exact h.act hWorkers place

/-- Any run, whatever is asked of the edges and however their acts interleave. -/
theorem run (h : Invariant state) (hWorkers : workers < UInt32.size)
    (moves : List (Move workers τ T R)) : Invariant (state.run moves) := by
  induction moves generalizing state with
  | nil => exact h
  | cons move rest ih => exact ih (h.step hWorkers move)

/-- The invariant holds after any moves on a new fabric. -/
theorem of_run {fabric : Fabric τ (Message T R)} (hFabric : Fabric.create workers = .ok fabric)
    (logger : Log.Logger) (moves : List (Move workers τ T R)) :
    Invariant ((State.start { fabric, journal := { logger } }).run moves) := by
  obtain ⟨-, hWorkers, hNew⟩ := Fabric.create_eq hFabric
  subst hNew
  exact (Invariant.start logger).run hWorkers moves

end Invariant

end Dataflow.Network
