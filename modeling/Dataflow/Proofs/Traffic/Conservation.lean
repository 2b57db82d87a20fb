import Dataflow.Proofs.Session.Worker
import Dataflow.Proofs.Traffic.Invariant

/-! Conservation of records on a channel between all workers. The workers may connect, push and pull
in any order, each with a capacity of its own, and the acts of their calls may interleave in any
way. -/
namespace Dataflow.Traffic

variable {τ T R : Type} [DecidableEq τ] [DecidableEq T] [Husk R]

/-- A pull of this worker that nobody interrupts ends, and it takes the oldest message out of the
worker's mailbox and hands it out, or nothing if the mailbox is empty. -/
def State.Yields (link : Link τ R) (target : Nat) (state : State τ T R) : Prop :=
  let box := state.world.fabric.box link.channel target
  ∃ count, let after := state.run link (.call target .pull :: List.replicate count (.act target))
    (after.agent target).task = none ∧ (after.agent target).held = (state.agent target).held ∧
      (after.agent target).handed = (state.agent target).handed ++ box.head?.toList ∧
      after.world.fabric.box link.channel target = box.tail

/-- A worker that is in no call can have the oldest message of its mailbox by pulling it. -/
theorem Invariant.yields {link : Link τ R} {workers : Nat} {state : State τ T R}
    (h : Invariant link workers state) {target : Nat} (hTask : (state.agent target).task = none)
    (hConnected : (state.agent target).held.isSome) : state.Yields link target := by
  obtain ⟨exchange, hHeld⟩ := Option.isSome_iff_exists.mp hConnected
  have hInForce : (state.agent target).inForce = some exchange :=
    (Agent.inForce_of_idle hTask).trans hHeld
  have hChannel := ((h.sound target).books exchange hInForce).channel
  obtain ⟨world', hTaken, hRun⟩ := exchange.run_pulling link.kind target state.world
  have hPulling : (entered link target .pull (state.agent target)).task =
      some exchange.pulling := by
    rw [entered, hHeld]
    exact congrArg Agent.task (Agent.enter_of_idle hTask exchange.pulling [])
  have hHanded : (entered link target .pull (state.agent target)).handed =
      (state.agent target).handed :=
    ((state.agent target).enter_history _ _).2.1
  obtain ⟨count, performed, hActs⟩ := Agent.exists_acts hPulling hRun
  refine ⟨count, ?_⟩
  simp only [State.run_call, hActs, State.turn_self, State.turn_world, hHeld, hHanded, hTaken,
    hChannel, Fabric.box_take_self, and_self]

/-- For every source and target, the records that the target's pulls have handed out, those that a
pull of it has in hand, those that lie in its mailbox, those that a push of the source is about to
deliver and those that wait at the source are, in this order, exactly the records that the source has
pushed and the hash sends there. Between two calls of either nothing is in hand and nothing about to
be delivered. Once the source has then pushed an empty slot and the mailbox is empty, all records have
been handed out. And the mailbox can be emptied: a pull hands out the oldest message in it. -/
theorem conservation {workers : Nat} {fabric : Fabric τ (Message T R)}
    (hFabric : Fabric.create workers = .ok fabric) (link : Link τ R) (journal : Journal)
    (moves : List (Move T R)) {source target : Nat} (hSource : source < workers)
    (hTarget : target < workers) :
    let state := (State.start { fabric, journal }).run link moves
    let sender := state.agent source
    let receiver := state.agent target
    let box := state.world.fabric.box link.channel target
    let handed := stemming source receiver.handed
    let queued := stemming source box
    let routed := (records sender.slots).filter fun p => (link.hash p.2).toNat % workers = target
    handed.flatMap Message.timed ++ (stemming source receiver.inHand).flatMap Message.timed ++
        queued.flatMap Message.timed ++
        (sender.outstanding link.channel target).flatMap Message.timed ++ sender.waiting target =
      routed ∧
    (∀ exchange, sender.inForce = some exchange → exchange.fan.current = none →
      exchange.fan.buffer target = []) ∧
    (sender.task = none → receiver.task = none →
      handed.flatMap Message.timed ++ queued.flatMap Message.timed ++
        (sender.held.elim [] fun exchange => exchange.fan.waiting target) = routed) ∧
    (sender.task = none → receiver.task = none → sender.slots.getLast? = some none → box = [] →
      handed.flatMap Message.timed = routed) ∧
    (receiver.task = none → receiver.held.isSome → state.Yields link target) := by
  intro state sender receiver box handed queued routed
  have invariant : Invariant link workers state := .of_run hFabric link journal moves
  have sound : Sound link workers source sender := invariant.sound source
  have hArrived : handed ++ stemming source receiver.inHand ++ queued =
      sender.forwarded link.channel target := by
    rw [← invariant.arrived source target hSource hTarget, State.reached, stemming_append,
      Agent.taken, stemming_append]
  have hAll : handed.flatMap Message.timed ++
      (stemming source receiver.inHand).flatMap Message.timed ++ queued.flatMap Message.timed ++
      (sender.outstanding link.channel target).flatMap Message.timed ++ sender.waiting target =
        routed := by
    rw [← List.flatMap_append, ← List.flatMap_append, hArrived, ← List.flatMap_append,
      ← Agent.sent_eq]
    exact sound.ledger target
  have hBetween (hSender : sender.task = none) (hReceiver : receiver.task = none) :
      handed.flatMap Message.timed ++ queued.flatMap Message.timed ++
        (sender.held.elim [] fun exchange => exchange.fan.waiting target) = routed := by
    have hOutstanding : sender.outstanding link.channel target = [] := by
      rw [Agent.outstanding, hSender]
      rfl
    have hInHand : stemming source receiver.inHand = [] := by
      rw [Agent.inHand_of_idle hReceiver]
      rfl
    rw [hOutstanding, hInHand, List.flatMap_nil, List.append_nil, List.append_nil, Agent.waiting,
      Agent.inForce_of_idle hSender] at hAll
    exact hAll
  refine ⟨hAll, ?_, hBetween, ?_, invariant.yields⟩
  · intro exchange hInForce hTime
    exact (sound.books exchange hInForce).settled.idle hTime target
  · intro hSender hReceiver hLast hBox
    have hQueued : queued = [] := congrArg (stemming source) hBox
    have hWaiting : (sender.held.elim [] fun exchange => exchange.fan.waiting target) = [] := by
      cases hHeld : sender.held with
      | none => rfl
      | some exchange =>
          have hInForce : sender.inForce = some exchange :=
            (Agent.inForce_of_idle hSender).trans hHeld
          exact FanOut.waiting_of_buffer_nil ((sound.books exchange hInForce).closed hLast target)
    have hRest := hBetween hSender hReceiver
    rw [hQueued, hWaiting, List.flatMap_nil, List.append_nil, List.append_nil] at hRest
    exact hRest

/-- Records go to the worker of their own parity if there are two. -/
def parity : Link Unit UInt64 where
  channel := 7
  kind := ()
  hash := id

/-- Worker 0 pushes three records and then an empty slot, while worker 1 already pulls. -/
def handover : List (Move Nat UInt64) :=
  [.call 0 (.connect {} none []), .act 0, .call 1 (.connect { capacity := 1 } none []), .act 0,
    .act 1, .act 0, .act 1, .act 1, .call 0 (.push (some { time := 5, data := [1, 2, 3] })),
    .act 0, .call 0 (.push none), .call 1 .pull, .act 0, .act 0, .act 0, .act 1, .act 1]

def handedOver : State Unit Nat UInt64 :=
  (State.start { fabric := { workers := 2 } }).run parity handover

theorem conservation_handover :
    (stemming 0 (handedOver.agent 1).handed).flatMap Message.timed = [(5, 1), (5, 3)] := by
  have hFabric : Fabric.create 2 = .ok ({ workers := 2 } : Fabric Unit (Message Nat UInt64)) := rfl
  have hSource : 0 < 2 := by decide
  have hTarget : 1 < 2 := by decide
  have hSender : (handedOver.agent 0).task.isNone = true := by decide +kernel
  have hReceiver : (handedOver.agent 1).task.isNone = true := by decide +kernel
  have hLast : (handedOver.agent 0).slots.getLast? = some none := by decide +kernel
  have hBox : handedOver.world.fabric.box parity.channel 1 = [] := by decide +kernel
  have hRouted : ((records (handedOver.agent 0).slots).filter fun p =>
      (parity.hash p.2).toNat % 2 = 1) = [(5, 1), (5, 3)] := by decide +kernel
  have hHanded := (conservation hFabric parity {} handover hSource hTarget).2.2.2.1
    (Option.isNone_iff_eq_none.mp hSender) (Option.isNone_iff_eq_none.mp hReceiver) hLast hBox
  exact hHanded.trans hRouted

end Dataflow.Traffic
