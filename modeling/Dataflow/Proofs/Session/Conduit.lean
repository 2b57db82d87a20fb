import Dataflow.Proofs.Fabric.Mailbox
import Dataflow.Proofs.FanOut.Moves
import Dataflow.Proofs.Session.Frame

/-! Edges between a worker and itself. Whether such an edge is a private queue, a distributor with
one destination in front of a private queue, or one in front of the only mailbox of a channel, it
does what a conduit does: it numbers messages and hands them out in order. -/
namespace Dataflow

variable {τ T R : Type}

namespace Journal

/-- Notes events in order, each for its sink. -/
def record (journal : Journal) (notes : List (Sink × Event)) : Journal :=
  notes.foldl (fun journal note => journal.note note.2 note.1) journal

/-- The events that are kept in memory. -/
def kept (notes : List (Sink × Event)) : List Event :=
  notes.filterMap fun note =>
    match note.1 with
    | .memory => some note.2
    | .text _ => none

/-- The lines that the log gets, as it is set at the moment. -/
def written (journal : Journal) (notes : List (Sink × Event)) : List Log.Line :=
  notes.filterMap fun note =>
    match note.1 with
    | .memory => none
    | .text worker =>
      if journal.logger.level.enables .trace && journal.logger.attached then
        some ⟨.trace, worker, note.2.channel, Log.clip note.2.describe⟩
      else none

/-- The logs are set alike, whatever has been written to them. -/
structure Alike (first second : Journal) : Prop where
  level : first.logger.level = second.logger.level
  attached : first.logger.attached = second.logger.attached

theorem Alike.rfl {journal : Journal} : journal.Alike journal where
  level := Eq.refl _
  attached := Eq.refl _

theorem Alike.trans {first second third : Journal} (h : first.Alike second)
    (h' : second.Alike third) : first.Alike third where
  level := h.level.trans h'.level
  attached := h.attached.trans h'.attached

theorem Alike.written {first second : Journal} (h : first.Alike second)
    (notes : List (Sink × Event)) : first.written notes = second.written notes := by
  rw [Journal.written, Journal.written, h.level, h.attached]

/-- Logging changes nothing of the settings of a journal. -/
theorem alike_log (journal : Journal) (level : Level) (worker channel : UInt32) (text : Bytes) :
    journal.Alike (journal.log level worker channel text) := by
  unfold log Log.Logger.log
  constructor
  · split <;> rfl
  · split <;> rfl

/-- Neither does an event. -/
theorem alike_note (journal : Journal) (event : Event) (sink : Sink) :
    journal.Alike (journal.note event sink) := by
  cases sink with
  | memory => exact ⟨rfl, rfl⟩
  | text worker => exact journal.alike_log _ _ _ _

theorem alike_record (journal : Journal) (notes : List (Sink × Event)) :
    journal.Alike (journal.record notes) := by
  induction notes generalizing journal with
  | nil => exact .rfl
  | cons note rest ih => exact (journal.alike_note note.2 note.1).trans (ih _)

/-- Notes may be recorded in two parts. -/
theorem record_append (journal : Journal) (first second : List (Sink × Event)) :
    journal.record (first ++ second) = (journal.record first).record second :=
  List.foldl_append

/-- The notes for the memory are kept as events. -/
theorem events_record (journal : Journal) (notes : List (Sink × Event)) :
    (journal.record notes).events.toList = journal.events.toList ++ kept notes := by
  induction notes generalizing journal with
  | nil => exact (List.append_nil _).symm
  | cons note rest ih =>
      obtain ⟨sink, event⟩ := note
      have hRest : (journal.record ((sink, event) :: rest)).events.toList =
          (journal.note event sink).events.toList ++ kept rest := ih _
      rw [hRest]
      cases sink with
      | memory =>
          rw [note_memory_events, List.append_assoc]
          rfl
      | text worker => rfl

/-- The notes for the text are written as lines. -/
theorem lines_record (journal : Journal) (notes : List (Sink × Event)) :
    (journal.record notes).logger.lines.toList =
      journal.logger.lines.toList ++ journal.written notes := by
  induction notes generalizing journal with
  | nil => exact (List.append_nil _).symm
  | cons note rest ih =>
      obtain ⟨sink, event⟩ := note
      have hRest : (journal.record ((sink, event) :: rest)).logger.lines.toList =
          (journal.note event sink).logger.lines.toList ++
            (journal.note event sink).written rest := ih _
      rw [hRest, ← (journal.alike_note event sink).written]
      cases sink with
      | memory => rfl
      | text worker =>
          simp only [note, log, Log.Logger.log, written, List.filterMap_cons]
          split
          · rw [Array.toList_push, List.append_assoc]
            rfl
          · rfl

end Journal

/-- A queue between a sender and a receiver. -/
structure Conduit (T R : Type) where
  sender : Sender
  receiver : Receiver
  /-- The oldest message first. -/
  waiting : List (Message T R) := []

namespace Conduit

variable (conduit : Conduit T R)

/-- The message of a slot joins the queue with a stamp. -/
def offer : Option (Message T R) → Conduit T R
  | none => conduit
  | some message =>
    { conduit with
      sender := { conduit.sender with counter := conduit.sender.counter + 1 }
      waiting := conduit.waiting ++ [conduit.sender.stamp message] }

def hand (count : Nat) : Conduit T R := { conduit with waiting := conduit.waiting.drop count }

def notesOfOffer (slot : Option (Message T R)) : List (Sink × Event) :=
  conduit.sender.sink.toList.flatMap fun sink =>
    slot.toList.map fun message => (sink, conduit.sender.event message)

def notesOfHand (messages : List (Message T R)) : List (Sink × Event) :=
  conduit.receiver.sink.toList.flatMap fun sink =>
    messages.map fun message => (sink, conduit.receiver.event message)

/-- Messages may be handed out in two parts. -/
theorem hand_hand (first second : Nat) :
    (conduit.hand first).hand second = conduit.hand (first + second) := by
  simp only [hand, List.drop_drop]

theorem notesOfHand_append (first second : List (Message T R)) :
    conduit.notesOfHand (first ++ second) =
      conduit.notesOfHand first ++ conduit.notesOfHand second := by
  unfold notesOfHand
  cases conduit.receiver.sink with
  | none => rfl
  | some sink => simp only [Option.toList_some, List.flatMap_singleton, List.map_append]

/-- What a step does: the conduit afterwards, the answer, and what is noted. Every message is
taken, so slots come back empty and so do buffers. -/
def perform : Step τ T R → Conduit T R × Answer T R × List (Sink × Event)
  | .push _ _ message =>
    (conduit.offer (some message), .slot none, conduit.notesOfOffer (some message))
  | .send _ _ message =>
    (conduit.offer (some message), .nothing, conduit.notesOfOffer (some message))
  | .done _ _ => (conduit, .nothing, [])
  | .pushBatch _ _ time data =>
    (conduit.offer (some { time, data }), .buffer [], conduit.notesOfOffer (some { time, data }))
  | .pull _ =>
    (conduit.hand 1, .slot conduit.waiting.head?,
      conduit.notesOfHand (conduit.waiting.take 1))
  | .recv _ =>
    (conduit.hand 1, .message conduit.waiting.head?,
      conduit.notesOfHand (conduit.waiting.take 1))
  | .drain _ =>
    (conduit.hand conduit.waiting.length, .messages conduit.waiting,
      conduit.notesOfHand conduit.waiting)
  | .setLevel _ | .connect _ _ | .info _ | .buffered _ _ | .drop _ => (conduit, .nothing, [])

def run (journal : Journal) : Conduit T R → List (Step τ T R) → List (Report τ T R)
  | _, [] => []
  | conduit, step :: steps =>
    let (conduit, answer, notes) := conduit.perform step
    { answer, events := Journal.kept notes, lines := journal.written notes } ::
      run journal conduit steps

end Conduit

/-- The front sends all messages through this sender, as they are. -/
inductive Front.Sends (sender : Sender) : Front T R → Prop where
  | direct : Sends sender (.sender sender)
  | alone (fan : FanOut T R) (h : fan.lanes = [⟨sender, []⟩]) : Sends sender (.fanOut fan)

/-- These messages wait at the outlet. -/
inductive Outlet.Holds (waiting : List (Message T R)) :
    Outlet T R × World τ (Message T R) → Prop where
  | queue (world : World τ (Message T R)) : Holds waiting (.queue waiting, world)
  | mailbox {channel : UInt32} {world : World τ (Message T R)}
      (h : world.fabric.box? channel 0 = some waiting) :
      Holds waiting (.mailboxes channel 0, world)

namespace Outlet.Holds

variable {waiting : List (Message T R)} {state : Outlet T R × World τ (Message T R)}

theorem note (h : Outlet.Holds waiting state) (event : Event) (sink : Option Sink) :
    Outlet.Holds waiting (medium.noteTo sink event state) := by
  cases sink with
  | none => exact h
  | some sink =>
      cases h with
      | queue world => exact .queue _
      | mailbox hBox => exact .mailbox hBox

/-- A slot goes into the queue and leaves the journal alone. -/
theorem offer (h : Outlet.Holds waiting state) (slot : Option (Message T R)) :
    ∃ after, Outlet.offer 0 slot state = { state := after, slot := none } ∧
      Outlet.Holds (waiting ++ slot.toList) after ∧ after.2.journal = state.2.journal := by
  cases h with
  | queue world => exact ⟨_, rfl, .queue world, rfl⟩
  | @mailbox channel world hBox =>
      cases slot with
      | none =>
          refine ⟨_, rfl, ?_, rfl⟩
          rw [Option.toList_none, List.append_nil]
          exact .mailbox hBox
      | some message =>
          refine ⟨_, rfl, .mailbox ?_, rfl⟩
          have hDelivered : (world.fabric.deliver channel 0 message).box? channel 0 =
              (world.fabric.box? channel 0).map (· ++ [message]) := by
            rw [Fabric.deliver_eq, Fabric.box?_editBox, if_pos ⟨rfl, rfl⟩]
          exact hDelivered.trans (congrArg _ hBox)

/-- The oldest message comes out and leaves the journal alone. -/
theorem take (h : Outlet.Holds waiting state) :
    ∃ after, Outlet.take state = (waiting.head?, after) ∧ Outlet.Holds waiting.tail after ∧
      after.2.journal = state.2.journal := by
  cases h with
  | queue world => exact ⟨_, rfl, .queue world, rfl⟩
  | @mailbox channel world hBox =>
      have hHead : (world.fabric.take channel 0).1 = waiting.head? := by
        rw [Fabric.take_eq, Fabric.box_eq, hBox, Option.getD_some]
      have hTail : (world.fabric.take channel 0).2.box? channel 0 = some waiting.tail := by
        rw [Fabric.take_eq, Fabric.box?_editBox, if_pos ⟨rfl, rfl⟩, hBox, Option.map_some]
      refine ⟨(.mailboxes channel 0, (world.take channel 0).2), ?_, .mailbox hTail, rfl⟩
      rw [← hHead]
      rfl

theorem waiting_length (h : Outlet.Holds waiting state) :
    Outlet.waiting state = waiting.length := by
  cases h with
  | queue world => rfl
  | mailbox hBox => rw [Outlet.waiting, Fabric.box_eq, hBox, Option.getD_some]

/-- A slot on its way through the sender of a conduit. -/
theorem push {conduit : Conduit T R} (h : Outlet.Holds conduit.waiting state)
    (slot : Option (Message T R)) :
    ∃ after, Sender.push medium 0 slot (conduit.sender, state) =
        { state := ((conduit.offer slot).sender, after), slot := none } ∧
      Outlet.Holds (conduit.offer slot).waiting after ∧
        after.2.journal = state.2.journal.record (conduit.notesOfOffer slot) := by
  cases slot with
  | none =>
      obtain ⟨after, hOffer, hHolds, hJournal⟩ := h.offer none
      rw [Option.toList_none, List.append_nil] at hHolds
      refine ⟨after, ?_, hHolds, ?_⟩
      · simp only [Sender.push, medium, hOffer]
        rfl
      · rw [hJournal, Conduit.notesOfOffer]
        cases conduit.sender.sink <;> rfl
  | some message =>
      have hNoted := h.note (conduit.sender.event message) conduit.sender.sink
      obtain ⟨after, hOffer, hHolds, hJournal⟩ :=
        hNoted.offer (some (conduit.sender.stamp message))
      refine ⟨after, ?_, hHolds, ?_⟩
      · have hMedium : (medium (τ := τ)).offer 0 (some (conduit.sender.stamp message))
            (medium.noteTo conduit.sender.sink (conduit.sender.event message) state) =
              { state := after, slot := none } := hOffer
        simp only [Sender.push, hMedium]
        rfl
      · rw [hJournal, Conduit.notesOfOffer]
        cases conduit.sender.sink <;> rfl

end Outlet.Holds

namespace Edge

/-- The edge does what the conduit does. -/
structure Conducts (conduit : Conduit T R) (state : Edge τ T R × World τ (Message T R)) :
    Prop where
  front : Front.Sends conduit.sender state.1.front
  outlet : Outlet.Holds conduit.waiting (state.1.outlet, state.2)
  receiver : state.1.receiver = some conduit.receiver

namespace Conducts

variable {conduit : Conduit T R} {state : Edge τ T R × World τ (Message T R)}

theorem push [DecidableEq T] [Husk R] (h : Conducts conduit state) (dst : Nat)
    (slot : Option (Message T R)) :
    ∃ after, Edge.push dst slot state = { state := after, slot := none } ∧
      Conducts (conduit.offer slot) after ∧
        after.2.journal = state.2.journal.record (conduit.notesOfOffer slot) := by
  obtain ⟨⟨kind, front, outlet, receiver⟩, world⟩ := state
  obtain ⟨hFront, hOutlet, hReceiver⟩ := h
  obtain ⟨⟨outlet', world'⟩, hPush, hHolds, hJournal⟩ := hOutlet.push slot
  have hKept : (conduit.offer slot).receiver = conduit.receiver := by
    cases slot <;> rfl
  cases hFront with
  | direct =>
      refine ⟨({ kind, front := .sender (conduit.offer slot).sender, outlet := outlet', receiver },
        world'), ?_, ⟨.direct, hHolds, ?_⟩, hJournal⟩
      · simp only [Edge.push, hPush]
      · rw [hKept]
        exact hReceiver
  | alone fan hLanes =>
      let fan' := { fan with lanes := [⟨(conduit.offer slot).sender, []⟩] }
      refine ⟨({ kind, front := .fanOut fan', outlet := outlet', receiver }, world'), ?_,
        ⟨.alone fan' rfl, hHolds, ?_⟩, hJournal⟩
      · simp only [Edge.push, FanOut.push_direct Outlet.medium slot hLanes, hPush]
        rfl
      · rw [hKept]
        exact hReceiver

/-- A received message is reported to the sink of the receiver. -/
theorem report {waiting : List (Message T R)} {edge : Edge τ T R} {receiver : Receiver}
    (hReceiver : edge.receiver = some receiver) {world : World τ (Message T R)}
    (h : Outlet.Holds waiting (edge.outlet, world)) (message : Message T R) :
    Outlet.Holds waiting (edge.outlet, edge.report message world) ∧
      (edge.report message world).journal = world.journal.record
        (receiver.sink.toList.map fun sink => (sink, receiver.event message)) := by
  have hNoted := h.note (receiver.event message) receiver.sink
  simp only [Edge.report, hReceiver]
  cases hSink : receiver.sink with
  | none => exact ⟨h, rfl⟩
  | some sink =>
      rw [hSink] at hNoted
      exact ⟨hNoted, rfl⟩

/-- A pull hands out the oldest message, with the notes of a receiver. -/
theorem pull (h : Conducts conduit state) :
    ∃ after, Edge.pull state = (conduit.waiting.head?, after) ∧ Conducts (conduit.hand 1) after ∧
      after.2.journal = state.2.journal.record (conduit.notesOfHand (conduit.waiting.take 1)) := by
  obtain ⟨edge, world⟩ := state
  obtain ⟨hFront, hOutlet, hReceiver⟩ := h
  obtain ⟨⟨outlet, world'⟩, hTake, hHolds, hJournal⟩ := hOutlet.take
  have hRest : conduit.waiting.tail = (conduit.hand 1).waiting := (List.drop_one).symm
  rw [hRest] at hHolds
  simp only [Edge.pull, hTake]
  cases hWaiting : conduit.waiting with
  | nil =>
      refine ⟨_, rfl, ⟨hFront, hHolds, hReceiver⟩, ?_⟩
      rw [hJournal, Conduit.notesOfHand]
      cases conduit.receiver.sink <;> rfl
  | cons message rest =>
      have hTaken : ({ edge with outlet } : Edge τ T R).receiver = some conduit.receiver :=
        hReceiver
      obtain ⟨hHolds, hNoted⟩ := report hTaken hHolds message
      refine ⟨_, rfl, ⟨hFront, hHolds, hReceiver⟩, ?_⟩
      rw [hNoted, hJournal, Conduit.notesOfHand]
      cases conduit.receiver.sink <;> rfl

/-- Pulls in a row hand out the oldest messages, with their notes in order. -/
theorem pullUpTo (h : Conducts conduit state) (limit : Nat) :
    ∃ after, Edge.pullUpTo limit state = (conduit.waiting.take limit, after) ∧
      Conducts (conduit.hand limit) after ∧
        after.2.journal =
          state.2.journal.record (conduit.notesOfHand (conduit.waiting.take limit)) := by
  induction limit generalizing conduit state with
  | zero =>
      refine ⟨state, rfl, h, ?_⟩
      rw [List.take_zero, Conduit.notesOfHand]
      cases conduit.receiver.sink <;> rfl
  | succ limit ih =>
      obtain ⟨after, hPull, hConducts, hJournal⟩ := h.pull
      cases hWaiting : conduit.waiting with
      | nil =>
          have hSame : conduit.hand 1 = conduit.hand (limit + 1) := by
            rw [Conduit.hand, Conduit.hand, hWaiting, List.drop_nil, List.drop_nil]
          rw [hWaiting] at hPull hJournal
          rw [hSame] at hConducts
          refine ⟨after, ?_, hConducts, hJournal⟩
          simp only [Edge.pullUpTo, hPull]
          rfl
      | cons message rest =>
          obtain ⟨last, hRest, hLast, hRestJournal⟩ := ih hConducts
          have hQueue : (conduit.hand 1).waiting = rest := by
            rw [Conduit.hand, hWaiting]
            rfl
          rw [hWaiting] at hPull hJournal
          rw [hQueue] at hRest hRestJournal
          rw [Conduit.hand_hand, Nat.add_comm] at hLast
          refine ⟨last, ?_, hLast, ?_⟩
          · simp only [Edge.pullUpTo, hPull, List.head?_cons, hRest]
            rfl
          · rw [hRestJournal, hJournal, ← Journal.record_append]
            exact congrArg _ (conduit.notesOfHand_append [message] (rest.take limit)).symm

theorem received (h : Conducts conduit state) : state.1.received = [] := by
  obtain ⟨⟨kind, front, outlet, receiver⟩, world⟩ := state
  obtain ⟨-, hOutlet, -⟩ := h
  cases hOutlet <;> rfl

/-- A drain hands out all that waits. -/
theorem drain (h : Conducts conduit state) :
    ∃ after, Edge.drain state = (conduit.waiting, after) ∧
      Conducts (conduit.hand conduit.waiting.length) after ∧
        after.2.journal = state.2.journal.record (conduit.notesOfHand conduit.waiting) := by
  have hPulled := h.pullUpTo conduit.waiting.length
  rw [List.take_length] at hPulled
  rw [Edge.drain, h.outlet.waiting_length]
  exact hPulled

end Conducts

end Edge

/-- The step uses the edge of this name, and it does not ask how much the edge holds back. -/
def Step.Uses (name : String) : Step τ T R → Prop
  | push other _ _ | send other _ _ | done other _ | pushBatch other _ _ _ | pull other | recv other
  | drain other | info other => other = name
  | setLevel _ | connect _ _ | buffered _ _ | drop _ => False

theorem Step.Uses.name? {name : String} {step : Step τ T R} (h : step.Uses name) :
    step.name? = some name := by
  cases step with
  | setLevel level => exact h.elim
  | connect other connection => exact h.elim
  | buffered other dst => exact h.elim
  | drop other => exact h.elim
  | _ => exact congrArg some h

def Report.outward (report : Report τ T R) : Report τ T R := { report with edge := none }

namespace Session

def Conducts (name : String) (conduit : Conduit T R) (session : Session τ T R) : Prop :=
  ∃ edge, session.edge? name = some edge ∧ Edge.Conducts conduit (edge, session.world)

namespace Conducts

variable {name : String} {conduit : Conduit T R} {session : Session τ T R}

theorem receive {α : Type} (h : session.Conducts name conduit)
    {use : Edge τ T R × World τ (Message T R) → α × Edge τ T R × World τ (Message T R)}
    {result : α} {conduit' : Conduit T R} {notes : List (Sink × Event)}
    (hUse : ∀ state, Edge.Conducts conduit state → ∃ after, use state = (result, after) ∧
      Edge.Conducts conduit' after ∧ after.2.journal = state.2.journal.record notes) :
    ∃ after, session.receive name use = (after, .ok result) ∧
      after.Conducts name conduit' ∧
        after.world.journal = session.world.journal.record notes := by
  obtain ⟨edge, hEdge, hConducts⟩ := h
  obtain ⟨⟨edge', world⟩, hUsed, hAfter, hJournal⟩ := hUse _ hConducts
  refine ⟨_, ?_, ⟨edge', edge?_setEdge_self { session with world } name edge', hAfter⟩, hJournal⟩
  simp only [Session.receive, hEdge, hUsed]

variable [DecidableEq T] [Husk R]

theorem offer (h : session.Conducts name conduit) (dst : Nat) (slot : Option (Message T R)) :
    ∃ after, session.offer name dst slot = (after, none, none) ∧
      after.Conducts name (conduit.offer slot) ∧
        after.world.journal = session.world.journal.record (conduit.notesOfOffer slot) := by
  obtain ⟨edge, hEdge, hConducts⟩ := h
  obtain ⟨⟨edge', world⟩, hPush, hAfter, hJournal⟩ := hConducts.push dst slot
  refine ⟨_, ?_, ⟨edge', edge?_setEdge_self { session with world } name edge', hAfter⟩, hJournal⟩
  simp only [Session.offer, hEdge, hPush]
  rfl

variable [DecidableEq τ]

/-- Every step that only uses an edge does what it does to a conduit. -/
theorem perform (h : session.Conducts name conduit) {step : Step τ T R} (hStep : step.Uses name) :
    ∃ after, session.perform step = (after, (conduit.perform step).2.1, none) ∧
      after.Conducts name (conduit.perform step).1 ∧
        after.world.journal = session.world.journal.record (conduit.perform step).2.2 := by
  cases step with
  | setLevel level => exact hStep.elim
  | connect other connection => exact hStep.elim
  | buffered other dst => exact hStep.elim
  | drop other => exact hStep.elim
  | push other dst message =>
      cases hStep
      obtain ⟨after, hOffer, hAfter⟩ := h.offer dst (some message)
      refine ⟨after, ?_, hAfter⟩
      simp only [Session.perform, hOffer]
      rfl
  | send other dst message =>
      cases hStep
      obtain ⟨after, hOffer, hAfter⟩ := h.offer dst (some message)
      refine ⟨after, ?_, hAfter⟩
      simp only [Session.perform, hOffer]
      rfl
  | done other dst =>
      cases hStep
      obtain ⟨after, hOffer, hAfter, hJournal⟩ := h.offer dst none
      refine ⟨after, ?_, hAfter, ?_⟩
      · simp only [Session.perform, hOffer]
        rfl
      · rw [hJournal, Conduit.notesOfOffer]
        cases conduit.sender.sink <;> rfl
  | pushBatch other dst time data =>
      cases hStep
      obtain ⟨after, hOffer, hAfter⟩ := h.offer dst (some { time, data })
      refine ⟨after, ?_, hAfter⟩
      simp only [Session.perform_pushBatch, hOffer]
      rfl
  | pull other =>
      cases hStep
      obtain ⟨after, hReceive, hAfter⟩ := h.receive fun _ => Edge.Conducts.pull
      refine ⟨after, ?_, hAfter⟩
      simp only [Session.perform, hReceive]
      rfl
  | recv other =>
      cases hStep
      obtain ⟨after, hReceive, hAfter⟩ := h.receive fun _ => Edge.Conducts.pull
      refine ⟨after, ?_, hAfter⟩
      simp only [Session.perform, hReceive]
      rfl
  | drain other =>
      cases hStep
      obtain ⟨after, hReceive, hAfter⟩ := h.receive fun _ => Edge.Conducts.drain
      refine ⟨after, ?_, hAfter⟩
      simp only [Session.perform, hReceive]
      rfl
  | info other =>
      cases hStep
      have hEdge : (session.edge? name).isNone = false := by
        obtain ⟨edge, hEdge, -⟩ := h
        rw [hEdge]
        rfl
      refine ⟨session, ?_, h, rfl⟩
      simp only [Session.perform, hEdge]
      rfl

/-- A step is answered as the conduit answers it, and what is noted goes to the journal. -/
theorem step (h : session.Conducts name conduit) {step : Step τ T R} (hStep : step.Uses name) :
    (session.step step).1.Conducts name (conduit.perform step).1 ∧
      session.world.journal.Alike (session.step step).1.world.journal ∧
        (session.step step).2.outward =
          { answer := (conduit.perform step).2.1
            events := Journal.kept (conduit.perform step).2.2
            lines := session.world.journal.written (conduit.perform step).2.2 } := by
  obtain ⟨after, hPerform, hAfter, hJournal⟩ := h.perform hStep
  obtain ⟨before, hBefore, hConducts⟩ := h
  obtain ⟨edge, hEdge, hConducts'⟩ := hAfter
  have hConcerned : after.concerned? step none = some edge := by
    have hBound : after.concerned? step none = step.name?.bind after.edge? := by
      cases step <;> rfl
    rw [hBound, hStep.name?, Option.bind_some, hEdge]
  have hAlike := session.world.journal.alike_record (conduit.perform step).2.2
  unfold Session.step
  simp only [hPerform, hConcerned, hStep.name?, Option.bind_some, hBefore, Option.map_some,
    Option.getD_some, Report.outward, hConducts'.received, List.drop_nil]
  rw [← hJournal] at hAlike
  refine ⟨⟨edge, hEdge, hConducts'⟩, hAlike, ?_⟩
  rw [hJournal, Journal.events_record, Journal.lines_record, ← Array.length_toList,
    ← Array.length_toList, List.drop_left, List.drop_left]

/-- The edge goes as the conduit goes, whatever else is in the journal. -/
theorem run (h : session.Conducts name conduit) {journal : Journal}
    (hJournal : journal.Alike session.world.journal) {steps : List (Step τ T R)}
    (hSteps : ∀ step ∈ steps, step.Uses name) :
    (session.run steps).map Report.outward = conduit.run journal steps := by
  induction steps generalizing session conduit with
  | nil => rfl
  | cons step rest ih =>
      obtain ⟨hConducts, hAlike, hReport⟩ := h.step (hSteps step List.mem_cons_self)
      have hRest := ih hConducts (hJournal.trans hAlike) fun other hOther =>
        hSteps other (List.mem_cons_of_mem step hOther)
      rw [← hJournal.written] at hReport
      simp only [Session.run, List.map_cons, Conduit.run, hReport, hRest]

end Conducts

end Session

/-- The conduit of a new edge from a worker to itself. -/
def Connection.conduit (connection : Connection τ T R) (index : UInt32) : Conduit T R where
  sender :=
    { channel := connection.channel
      source := index
      target := index
      sink := connection.tracing.sink index }
  receiver :=
    { channel := connection.channel
      index := index
      sink := connection.tracing.sink index }

namespace Session

variable {session : Session τ T R} {connection : Connection τ T R}
  [DecidableEq T] [Husk R] [DecidableEq τ]

/-- The connection is made, and the new edge does what a conduit of worker 0 does. -/
def Opens (session : Session τ T R) (name : String) (connection : Connection τ T R) : Prop :=
  let opened := session.step (.connect name connection)
  opened.2.error = none ∧ opened.1.Conducts name (connection.conduit 0) ∧
    session.world.journal.Alike opened.1.world.journal

/-- A connection whose edge conducts opens a conduit. -/
theorem opens_of_connect {edge : Edge τ T R} {world : World τ (Message T R)}
    (hConnect : session.connect connection = (.ok edge, world))
    (hEdge : Edge.Conducts (connection.conduit 0) (edge, world))
    (hJournal : session.world.journal.Alike world.journal) (name : String) :
    session.Opens name connection := by
  have hPerform : session.perform (.connect name connection) =
      (({ session with world }).setEdge name edge, .nothing, none) := by
    simp only [Session.perform, hConnect]
  refine ⟨?_, ?_, ?_⟩
  · simp only [Session.step, hPerform]
  · simp only [Session.step, hPerform]
    exact ⟨edge, edge?_setEdge_self _ name edge, hEdge⟩
  · simp only [Session.step, hPerform]
    exact hJournal

/-- A pipeline of a lone worker is a conduit. -/
theorem pipeline_opens (hHost : session.host = .lone) (hPact : connection.pact = .pipeline 0)
    (name : String) : session.Opens name connection := by
  have hConnect : session.connect connection = (.ok
      { kind := connection.kind, front := .sender (connection.conduit 0).sender,
        outlet := .queue [], receiver := some (connection.conduit 0).receiver },
      session.world.log .debug 0 connection.channel (pipelineNotice connection.address)) := by
    simp only [Session.connect, hPact, hasWorker, index, openQueue, hHost]
    rfl
  exact opens_of_connect hConnect ⟨.direct, .queue _, rfl⟩ (Journal.alike_log _ _ _ _ _) name

/-- An exchange that finds one mailbox, or a queue in its place, has a single destination. -/
theorem exchange_opens {hash : R → UInt64} {capacity : Nat} (hCapacity : 0 < capacity)
    (hPact : connection.pact = .exchange 0 hash capacity) (hWorker : session.hasWorker 0 = true)
    (hIndex : session.index 0 = 0) {outlet : Outlet T R} {world : World τ (Message T R)}
    (hOpen : session.openExchange 0 connection = (.ok outlet, world))
    (hPeers : Outlet.peers (outlet, world) = 1) (hOutlet : Outlet.Holds [] (outlet, world))
    (hJournal : session.world.journal.Alike world.journal) (name : String) :
    session.Opens name connection := by
  let sender := connection.conduit 0 |>.sender
  let fan : FanOut T R := { lanes := [⟨sender, []⟩], capacity, hash }
  have hSenders : Sender.towardsAll connection.channel 0 (connection.tracing.sink 0) 1 =
      [sender] := rfl
  have hCreate : FanOut.create [sender] capacity hash = .ok fan := by
    rw [FanOut.create, if_neg (List.cons_ne_nil _ _), if_neg (Nat.ne_of_gt hCapacity)]
    rfl
  have hConnect : session.connect connection = (.ok
      { kind := connection.kind, front := .fanOut fan, outlet,
        receiver := some (connection.conduit 0).receiver }, world) := by
    simp only [Session.connect, hPact, hWorker, hOpen, if_true, hIndex, hPeers, distributing,
      hSenders, hCreate]
    rfl
  exact opens_of_connect hConnect ⟨.alone fan rfl, hOutlet, rfl⟩ hJournal name

/-- So is an exchange of a lone worker. -/
theorem lone_exchange_opens {hash : R → UInt64} {capacity : Nat} (hCapacity : 0 < capacity)
    (hPact : connection.pact = .exchange 0 hash capacity) (hHost : session.host = .lone)
    (name : String) : session.Opens name connection := by
  have hOpen : session.openExchange 0 connection = (.ok (.queue []), session.world.log .debug 0
      connection.channel (soleExchangeNotice connection.address)) := by
    simp only [openExchange, hHost]
  have hJournal := session.world.journal.alike_log .debug 0 connection.channel
    (soleExchangeNotice connection.address)
  refine exchange_opens hCapacity hPact ?_ ?_ hOpen rfl (.queue _) hJournal name
  · rw [hasWorker, hHost]
  · rw [index, hHost]

/-- In a fabric of one worker, the first claim of a channel makes one empty mailbox. -/
theorem only_exchange_opens {hash : R → UInt64} {capacity : Nat} (hCapacity : 0 < capacity)
    (hPact : connection.pact = .exchange 0 hash capacity) (hHost : session.host = .shared)
    (hWorkers : session.world.fabric.workers = 1)
    (hFree : session.world.fabric.channel? connection.channel = none) (name : String) :
    session.Opens name connection := by
  let opened : Channel τ (Message T R) :=
    { kind := connection.kind, boxes := [[]], claimants := [0] }
  let fabric : Fabric τ (Message T R) :=
    { workers := 1
      channels := (connection.channel, opened) :: session.world.fabric.channels }
  have hClaim : session.world.fabric.claim connection.channel connection.kind 0 = .ok fabric := by
    simp only [Fabric.claim, hWorkers, hFree]
    rfl
  have hBox : fabric.box? connection.channel 0 = some [] := by
    rw [Fabric.box?, show fabric.channel? connection.channel = some opened from
      List.lookup_cons_self, Option.bind_some]
    rfl
  let world := ({ session.world with fabric }).log .debug 0 connection.channel
    (exchangeNotice connection.address 1)
  have hOpen : session.openExchange 0 connection =
      (.ok (.mailboxes connection.channel 0), world) := by
    simp only [openExchange, hHost, World.claim, hClaim, index]
    rfl
  refine exchange_opens hCapacity hPact ?_ ?_ hOpen rfl (.mailbox hBox)
    (Journal.alike_log _ _ _ _ _) name
  · rw [hasWorker, hHost, hWorkers]
    rfl
  · rw [index, hHost]
    rfl

/-- An exchange on one worker cannot be told from a pipeline, be it the exchange of a lone worker or
of the only worker of a fabric. Hash and capacity make no difference. -/
theorem exchange_eq_pipeline (connection : Connection τ T R) {lone only : Session τ T R}
    (hLone : lone.host = .lone) (hOnly : only.host = .shared)
    (hWorkers : only.world.fabric.workers = 1)
    (hFree : only.world.fabric.channel? connection.channel = none)
    (hJournal : only.world.journal = lone.world.journal) (hash : R → UInt64) {capacity : Nat}
    (hCapacity : 0 < capacity) (name : String) {steps : List (Step τ T R)}
    (hSteps : ∀ step ∈ steps, step.Uses name) :
    let pipeline := lone.step (.connect name { connection with pact := .pipeline 0 })
    let exchange := lone.step (.connect name { connection with pact := .exchange 0 hash capacity })
    let shared := only.step (.connect name { connection with pact := .exchange 0 hash capacity })
    pipeline.2.error = none ∧ exchange.2.error = none ∧ shared.2.error = none ∧
      (exchange.1.run steps).map Report.outward = (pipeline.1.run steps).map Report.outward ∧
        (shared.1.run steps).map Report.outward = (pipeline.1.run steps).map Report.outward := by
  intro pipeline exchange shared
  have hPipeline : lone.Opens name { connection with pact := .pipeline 0 } :=
    pipeline_opens hLone rfl name
  have hExchange : lone.Opens name { connection with pact := .exchange 0 hash capacity } :=
    lone_exchange_opens hCapacity rfl hLone name
  have hShared : only.Opens name { connection with pact := .exchange 0 hash capacity } := by
    apply only_exchange_opens hCapacity rfl hOnly hWorkers
    exact hFree
  rw [Opens, hJournal] at hShared
  have hReference := hPipeline.2.1.run hPipeline.2.2 hSteps
  refine ⟨hPipeline.1, hExchange.1, hShared.1, ?_, ?_⟩
  · rw [hReference]
    exact hExchange.2.1.run hExchange.2.2 hSteps
  · rw [hReference]
    exact hShared.2.1.run hShared.2.2 hSteps

/-- An edge whose ends keep their events. -/
def watched : Connection Unit Nat UInt64 where
  kind := ()
  channel := 6
  address := []
  tracing := .memory
  pact := .pipeline 0

/-- Three records pass in one message, before and after an empty slot. -/
def passing : List (Step Unit Nat UInt64) :=
  [.push "words" 0 { time := 1, data := [7, 8, 9] }, .done "words" 0, .recv "words", .pull "words"]

theorem exchange_eq_pipeline_passing :
    let only : Session Unit Nat UInt64 :=
      { host := .shared, world := { fabric := { workers := 1 } } }
    let shared := only.step (.connect "words" { watched with pact := .exchange 0 id 1 })
    Session.start (some 1) = .ok only ∧ (shared.1.run passing).map Report.events =
      [[{ isSend := true, channel := 6, length := 3 }], [],
        [{ channel := 6, length := 3 }], []] := by
  intro only shared
  let lone : Session Unit Nat UInt64 := { host := .lone, world := { fabric := { workers := 1 } } }
  have hLone : lone.host = .lone := rfl
  have hOnly : only.host = .shared := rfl
  have hStart : Session.start (some 1) = .ok only := rfl
  have hSteps : ∀ step ∈ passing, step.Uses "words" := by
    simp [passing, Step.Uses]
  have hSame := (exchange_eq_pipeline watched hLone hOnly rfl rfl rfl id Nat.one_pos "words"
    hSteps).2.2.2.2
  have hEvents (reports : List (Report Unit Nat UInt64)) :
      (reports.map Report.outward).map Report.events = reports.map Report.events :=
    List.map_map
  refine ⟨hStart, ?_⟩
  rw [← hEvents, hSame, hEvents]
  decide +kernel

end Session

end Dataflow
