import Dataflow.Proofs.Session.Pipeline
import Dataflow.Proofs.Traffic.Conservation

/-! Delivery of messages. On a channel between all workers the messages of many sources share each
mailbox; a private queue has one source. In either case the messages of a source come out as they
went in, in their order, and numbered by the sender they passed. -/
namespace Dataflow

open Traffic in
/-- First, a channel between all workers under any interleaving: what a target's pulls have handed out
of a source's messages, what a pull of it has in hand and what lies in its mailbox are together
exactly what the source's sender towards it has forwarded, numbered without a gap and marked; there
are no messages of any other origin; and a pull hands out the next message. Second, a private queue
under any steps of its session: what is handed out is what was pushed, renumbered and marked, and a
pull hands out the next message. -/
theorem delivery_in_order {τ T R : Type} [DecidableEq τ] [DecidableEq T] [Husk R] :
    (∀ (workers : Nat) (fabric : Fabric τ (Message T R)), Fabric.create workers = .ok fabric →
      ∀ (link : Link τ R) (journal : Journal) (moves : List (Move T R)) (source target : Nat),
      source < workers → target < workers →
      let state := (State.start { fabric, journal }).run link moves
      let receiver := state.agent target
      let queued := state.world.fabric.box link.channel target
      let forwarded := (state.agent source).forwarded link.channel target
      stemming source receiver.handed ++ stemming source receiver.inHand ++
          stemming source queued = forwarded ∧
        (receiver.task = none →
          stemming source receiver.handed ++ stemming source queued = forwarded) ∧
        forwarded.map Message.seq = (List.range forwarded.length).map UInt64.ofNat ∧
        (∀ message ∈ forwarded, message.source = UInt32.ofNat source) ∧
        (∀ message ∈ receiver.handed ++ receiver.inHand ++ queued, ∃ origin, origin < workers ∧
          message.source = UInt32.ofNat origin) ∧
        (receiver.task = none → receiver.held.isSome → state.Yields link target)) ∧
    (∀ (session : Session τ T R) (connection : Connection τ T R) (worker : Nat),
      connection.pact = .pipeline worker → session.hasWorker worker = true →
      ∀ (name : String) (steps : List (Step τ T R)), (∀ step ∈ steps, ¬step.Rebinds name) →
      let opened := (session.step (.connect name connection)).1
      let stamped := (steps.flatMap (Step.pushed name)).mapIdx fun n message =>
        { message with seq := UInt64.ofNat n, source := session.index worker }
      let handed := opened.handedOut name steps
      handed <+: stamped ∧
        ((opened.after steps).step (.pull name)).2.answer = .slot stamped[handed.length]?) := by
  constructor
  · intro workers fabric hFabric link journal moves source target hSource hTarget state receiver
      queued forwarded
    have invariant : Invariant link workers state := .of_run hFabric link journal moves
    obtain ⟨hSeqs, hSources⟩ := invariant.forwarded_stamped source hTarget
    have hArrived : stemming source receiver.handed ++ stemming source receiver.inHand ++
        stemming source queued = forwarded := by
      rw [← stemming_append, ← stemming_append]
      exact invariant.arrived source target hSource hTarget
    refine ⟨hArrived, fun hIdle => ?_, hSeqs, hSources, invariant.origin target hTarget,
      invariant.yields⟩
    rw [← hArrived, Agent.inHand_of_idle hIdle]
    exact congrArg (· ++ _) (List.append_nil _).symm
  · intro session connection worker hPact hWorker name steps hSteps
    exact Session.pipeline_delivery hPact hWorker name hSteps

def pair : Session Unit Nat UInt64 where
  host := .shared
  world := { fabric := { workers := 2 } }

def lines : Connection Unit Nat UInt64 where
  kind := ()
  channel := 1
  address := []
  tracing := .off
  pact := .pipeline 1

/-- Two messages go through a pipeline, and another pipeline is opened in between. -/
def relaying : List (Step Unit Nat UInt64) :=
  [.push "lines" 0 { time := 5, data := [1], seq := 9, source := 7 },
    .connect "words" { lines with channel := 2 }, .pull "lines",
    .send "lines" 0 { time := 6, data := [2, 4], seq := 9 }]

theorem delivery_in_order_relaying :
    Traffic.stemming 0 (Traffic.handedOver.agent 1).handed = [{ time := 5, data := [1, 3] }] ∧
    ((((pair.step (.connect "lines" lines)).1.after relaying).step (.pull "lines")).2.answer =
      .slot (some { time := 6, data := [2, 4], seq := 1, source := 1 })) := by
  have hFabric : Fabric.create 2 = .ok ({ workers := 2 } : Fabric Unit (Message Nat UInt64)) := rfl
  have hSource : 0 < 2 := by decide
  have hTarget : 1 < 2 := by decide
  have hForwarded : (Traffic.handedOver.agent 0).forwarded Traffic.parity.channel 1 =
      [{ time := 5, data := [1, 3] }] := by decide +kernel
  have hSteps : ∀ step ∈ relaying, ¬step.Rebinds "lines" := by
    simp [relaying, Step.Rebinds]
  have hNext : ((relaying.flatMap (Step.pushed "lines")).mapIdx fun n message =>
      { message with seq := UInt64.ofNat n, source := pair.index 1 })[
        ((pair.step (.connect "lines" lines)).1.handedOut "lines" relaying).length]? =
      some { time := 6, data := [2, 4], seq := 1, source := 1 } := by decide +kernel
  constructor
  · obtain ⟨-, hDelivered, -⟩ := delivery_in_order.1 2 _ hFabric Traffic.parity {}
      Traffic.handover 0 1 hSource hTarget
    have hReceiver : (Traffic.handedOver.agent 1).task.isNone = true := by decide +kernel
    have hBox : Traffic.handedOver.world.fabric.box Traffic.parity.channel 1 = [] := by
      decide +kernel
    have hAll : Traffic.stemming 0 (Traffic.handedOver.agent 1).handed ++
        Traffic.stemming 0 (Traffic.handedOver.world.fabric.box Traffic.parity.channel 1) = _ :=
      hDelivered (Option.isNone_iff_eq_none.mp hReceiver)
    rw [hBox] at hAll
    exact ((List.append_nil _).symm.trans hAll).trans hForwarded
  · rw [(delivery_in_order.2 pair lines 1 rfl rfl "lines" relaying hSteps).2, hNext]

end Dataflow
