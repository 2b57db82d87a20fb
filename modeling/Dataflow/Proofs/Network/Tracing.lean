import Dataflow.Proofs.Network.Invariant
import Mathlib.Algebra.GroupWithZero.Nat
import Mathlib.Data.List.Induction

/-! Tracing. Every message is reported once when it is sent, and if it is received it is reported
again, with the same number and length. An event says which channel number, source and target it is
of, but not which edge, so what a worker sends to itself can be followed only as long as the worker
has one edge with that number. -/
namespace Dataflow.Network

variable {τ T R : Type} {workers : Nat}

/-- The worker has no other edge connected on this channel. -/
def State.Sole (state : State workers τ T R) (place : Place workers) : Prop :=
  ∀ other : Place workers, other ≠ place → other.channel = place.channel →
    other.worker = place.worker → (state.agent other).held = none

/-- Every receipt comes after the announcement that it matches: at any time the receipts were those
of the messages announced first. -/
def Paired (channel source target : UInt32) (events : List Event) : Prop :=
  ∀ earlier, earlier <+: events →
    marks false channel source target earlier <+: marks true channel source target earlier

def announced (channel source target : UInt32) (events : List Event) : Nat :=
  ((marks true channel source target events).map fun mark => mark.2.toNat).sum

/-- Lengths that fit into a word count the records. -/
theorem announced_of_lengths {channel source target : UInt32} {events : List Event}
    {messages : List (Message T R)}
    (h : (marks true channel source target events).map Prod.snd =
      messages.map fun message => UInt64.ofNat message.length)
    (hFits : ∀ message ∈ messages, message.length < UInt64.size) :
    announced channel source target events = (messages.map Message.length).sum := by
  have hNumbers := congrArg (List.map UInt64.toNat) h
  rw [List.map_map, List.map_map] at hNumbers
  rw [announced]
  refine congrArg List.sum (hNumbers.trans (List.map_congr_left fun message hMessage => ?_))
  exact UInt64.toNat_ofNat_of_lt' (hFits message hMessage)

namespace Invariant

variable {state : State workers τ T R}

/-- An edge between all workers announces what comes from its worker and what arrives there. -/
theorem of_exchange_event (h : Invariant state) {channel : UInt32} {worker : Fin workers}
    {event : Event}
    (hEvent : event ∈ remembered (state.agent (.exchange channel worker)).performed) :
    event.channel = channel ∧ (event.isSend = true ∧ event.source = UInt32.ofNat worker ∨
      event.isSend = false ∧ event.target = UInt32.ofNat worker) ∧
        (state.agent (.exchange channel worker)).held ≠ none := by
  have hSound : Exchange.Sound workers channel worker _ := h.sound (.exchange channel worker)
  have hMem := (remembered_mono (Agent.performed_prefix_effects _)).subset hEvent
  obtain ⟨hChannel, hEnd⟩ := hSound.chronicle.of_event_mem hMem
  refine ⟨hChannel, hEnd, fun hHeld => ?_⟩
  rw [remembered_of_logs (hSound.blank hHeld)] at hMem
  exact absurd hMem List.not_mem_nil

/-- A private edge announces what goes from its worker to itself. -/
theorem of_pipe_event (h : Invariant state) {channel : UInt32} {worker : Fin workers} {name : Nat}
    {event : Event}
    (hEvent : event ∈ remembered (state.agent (.pipe channel worker name)).performed) :
    event.channel = channel ∧ event.source = UInt32.ofNat worker ∧
      event.target = UInt32.ofNat worker ∧
        (state.agent (.pipe channel worker name)).held ≠ none := by
  have hSound : Pipe.Sound channel (UInt32.ofNat worker) _ := h.sound (.pipe channel worker name)
  have hMem := (remembered_mono (Agent.performed_prefix_effects _)).subset hEvent
  obtain ⟨hChannel, hSource, hTarget⟩ := hSound.chronicle.of_event_mem hMem
  refine ⟨hChannel, hSource, hTarget, fun hHeld => ?_⟩
  rw [remembered_of_logs (hSound.blank hHeld)] at hMem
  exact absurd hMem List.not_mem_nil

variable {channel : UInt32} {source target : Fin workers}

/-- Marks of which only one edge can be the origin are in memory just as it announced them. -/
theorem marks_events (h : Invariant state) {isSend : Bool} {origin : Place workers}
    (hOthers : ∀ other, other ≠ origin → ∀ event ∈ remembered (state.agent other).performed,
      ¬event.Crosses isSend channel (UInt32.ofNat source) (UInt32.ofNat target)) :
    marks isSend channel (UInt32.ofNat source) (UInt32.ofNat target) state.events =
      marks isSend channel (UInt32.ofNat source) (UInt32.ofNat target)
        (remembered (state.agent origin).performed) := by
  rw [marks, marks]
  congr 1
  apply h.interleaved _ origin
  intro other hOther event hEvent
  exact decide_eq_false (hOthers other hOther event hEvent)

/-- The only end that announces what goes from one worker to another is that at the one if it is
sent, and that at the other if it is received. -/
theorem marks_exchange (h : Invariant state) (hWorkers : workers < UInt32.size)
    (hSole : source = target → state.Sole (.exchange channel source)) (isSend : Bool) :
    marks isSend channel (UInt32.ofNat source) (UInt32.ofNat target) state.events =
      marks isSend channel (UInt32.ofNat source) (UInt32.ofNat target)
        (remembered (state.agent
          (.exchange channel (cond isSend source target))).performed) := by
  have hWord {v w : Fin workers} (hSame : UInt32.ofNat v = UInt32.ofNat w) : v = w :=
    Fin.ext (eq_of_word_eq (Nat.lt_trans v.isLt hWorkers) (Nat.lt_trans w.isLt hWorkers) hSame)
  apply h.marks_events
  rintro other hOther event hEvent ⟨hSend, hChannel, hSource, hTarget⟩
  cases other with
  | exchange c worker =>
      obtain ⟨hEdge, hEnd, -⟩ := h.of_exchange_event hEvent
      have hHolder : worker = cond isSend source target := by
        rcases hEnd with ⟨hIsSend, hHere⟩ | ⟨hIsSend, hHere⟩
        · rw [← hSend, hIsSend]
          exact hWord (hHere.symm.trans hSource)
        · rw [← hSend, hIsSend]
          exact hWord (hHere.symm.trans hTarget)
      apply hOther
      rw [← hEdge, hChannel, hHolder]
  | pipe c worker name =>
      obtain ⟨hEdge, hFrom, hTo, hHeld⟩ := h.of_pipe_event hEvent
      have hHere := hWord (hSource.symm.trans hFrom)
      have hThere := hWord (hTarget.symm.trans hTo)
      apply hHeld
      exact hSole (hHere.trans hThere.symm) _ (fun hSame => nomatch hSame)
        (hEdge.symm.trans hChannel) hHere.symm

/-- A private edge announces all that its worker sends to itself, if there is no other. -/
theorem marks_pipe (h : Invariant state) (hWorkers : workers < UInt32.size)
    {worker : Fin workers} {name : Nat} (hSole : state.Sole (.pipe channel worker name))
    (isSend : Bool) :
    marks isSend channel (UInt32.ofNat worker) (UInt32.ofNat worker) state.events =
      marks isSend channel (UInt32.ofNat worker) (UInt32.ofNat worker)
        (remembered (state.agent (.pipe channel worker name)).performed) := by
  have hWord {v w : Fin workers} (hSame : UInt32.ofNat v = UInt32.ofNat w) : v = w :=
    Fin.ext (eq_of_word_eq (Nat.lt_trans v.isLt hWorkers) (Nat.lt_trans w.isLt hWorkers) hSame)
  apply h.marks_events
  rintro other hOther event hEvent ⟨hSend, hChannel, hSource, hTarget⟩
  cases other with
  | exchange c holder =>
      obtain ⟨hEdge, hEnd, hHeld⟩ := h.of_exchange_event hEvent
      have hHolder : holder = worker := by
        rcases hEnd with ⟨-, hHere⟩ | ⟨-, hHere⟩
        · exact hWord (hHere.symm.trans hSource)
        · exact hWord (hHere.symm.trans hTarget)
      exact hHeld (hSole _ hOther (hEdge.symm.trans hChannel) hHolder)
  | pipe c holder other =>
      obtain ⟨hEdge, hFrom, -, hHeld⟩ := h.of_pipe_event hEvent
      exact hHeld (hSole _ hOther (hEdge.symm.trans hChannel) (hWord (hFrom.symm.trans hSource)))

/-- What a worker announces to have received it has taken, and what it has taken another had
announced to send. -/
theorem exchange_receipts (h : Invariant state) (hWorkers : workers < UInt32.size)
    (hSole : source = target → state.Sole (.exchange channel source)) :
    marks false channel (UInt32.ofNat source) (UInt32.ofNat target) state.events <+:
      marks true channel (UInt32.ofNat source) (UInt32.ofNat target) state.events := by
  have hReceiver : Exchange.Sound workers channel target _ := h.sound (.exchange channel target)
  have hSender : Exchange.Sound workers channel source _ := h.sound (.exchange channel source)
  rw [h.marks_exchange hWorkers hSole false, h.marks_exchange hWorkers hSole true]
  have hReported : marks false channel (UInt32.ofNat source) (UInt32.ofNat target)
      (remembered (state.agent (.exchange channel target)).performed) <+:
        marks false channel (UInt32.ofNat source) (UInt32.ofNat target)
          (remembered (state.agent (.exchange channel target)).effects) :=
    marks_mono (remembered_mono (Agent.performed_prefix_effects _))
  have hReached : Traffic.stemming source (state.agent (.exchange channel target)).taken <+:
      state.delivered channel source target := by
    rw [← h.arrived, State.reached, Traffic.stemming_append]
    exact List.prefix_append _ _
  rw [hReceiver.chronicle.receipts] at hReported
  exact (hReported.trans (hReached.map _)).trans
    (hSender.chronicle.heralded hWorkers target.isLt (Agent.performed_prefix_effects _))

/-- Between two calls of the sender, what it has announced is what it has delivered. -/
theorem exchange_delivered (h : Invariant state) (hWorkers : workers < UInt32.size)
    (hSole : source = target → state.Sole (.exchange channel source))
    (hIdle : (state.agent (.exchange channel source)).task = none) :
    marks true channel (UInt32.ofNat source) (UInt32.ofNat target) state.events =
      (state.delivered channel source target).map Message.mark := by
  have hSender : Exchange.Sound workers channel source _ := h.sound (.exchange channel source)
  have hDelivered := hSender.chronicle.delivered hWorkers target.isLt
  rw [Agent.effects_of_idle hIdle] at hDelivered
  rw [h.marks_exchange hWorkers hSole true]
  exact hDelivered.symm

/-- If the receiver is between two calls as well, what it has not announced waits for it. -/
theorem exchange_waiting (h : Invariant state) (hWorkers : workers < UInt32.size)
    (hSole : source = target → state.Sole (.exchange channel source))
    (hSource : (state.agent (.exchange channel source)).task = none)
    (hTarget : (state.agent (.exchange channel target)).task = none) :
    marks true channel (UInt32.ofNat source) (UInt32.ofNat target) state.events =
      marks false channel (UInt32.ofNat source) (UInt32.ofNat target) state.events ++
        (Traffic.stemming source (state.world.fabric.box channel target)).map Message.mark := by
  have hReceiver : Exchange.Sound workers channel target _ := h.sound (.exchange channel target)
  have hTaken := hReceiver.chronicle.receipts (UInt32.ofNat source)
  rw [Agent.effects_of_idle hTarget] at hTaken
  rw [h.exchange_delivered hWorkers hSole hSource, ← h.arrived, State.reached,
    Traffic.stemming_append, List.map_append, h.marks_exchange hWorkers hSole false]
  exact congrArg (· ++ _) hTaken.symm

variable {worker : Fin workers} {name : Nat}

/-- Receipts from a private queue follow the sends into it. -/
theorem pipe_receipts (h : Invariant state) (hWorkers : workers < UInt32.size)
    (hSole : state.Sole (.pipe channel worker name)) :
    marks false channel (UInt32.ofNat worker) (UInt32.ofNat worker) state.events <+:
      marks true channel (UInt32.ofNat worker) (UInt32.ofNat worker) state.events := by
  have hSound : Pipe.Sound channel (UInt32.ofNat worker) _ := h.sound (.pipe channel worker name)
  rw [h.marks_pipe hWorkers hSole, h.marks_pipe hWorkers hSole]
  exact hSound.chronicle.received (Agent.performed_prefix_effects _)

/-- Between two calls, what has been announced on the way in is what has been announced on the way
out and then what waits; and these are the messages that were pushed. -/
theorem pipe_waiting (h : Invariant state) (hWorkers : workers < UInt32.size)
    (hSole : state.Sole (.pipe channel worker name))
    (hIdle : (state.agent (.pipe channel worker name)).task = none) {pipe : Pipe T R}
    (hHeld : (state.agent (.pipe channel worker name)).held = some pipe) :
    marks true channel (UInt32.ofNat worker) (UInt32.ofNat worker) state.events =
        marks false channel (UInt32.ofNat worker) (UInt32.ofNat worker) state.events ++
          pipe.waiting.map Message.mark ∧
      (marks true channel (UInt32.ofNat worker) (UInt32.ofNat worker) state.events).map Prod.snd =
        ((state.agent (.pipe channel worker name)).slots.flatMap Option.toList).map
          fun message => UInt64.ofNat message.length := by
  have hSound : Pipe.Sound channel (UInt32.ofNat worker) _ := h.sound (.pipe channel worker name)
  have hChronicle := hSound.chronicle
  rw [Agent.effects_of_idle hIdle, Agent.inForce_of_idle hIdle, hHeld] at hChronicle
  rw [h.marks_pipe hWorkers hSole, h.marks_pipe hWorkers hSole]
  exact ⟨hChronicle.sent, hChronicle.lengths⟩

end Invariant

section Run

variable [DecidableEq τ] [DecidableEq T] [Husk R] {state : State workers τ T R}

namespace State

/-- Some moves on the new fabric lead to this state. -/
def Reachable (fabric : Fabric τ (Message T R)) (logger : Log.Logger)
    (state : State workers τ T R) : Prop :=
  ∃ moves, (start { fabric, journal := { logger } }).run moves = state

/-- What is connected stays connected. -/
theorem held_of_step {move : Move workers τ T R} {place : Place workers}
    (h : ((state.step move).agent place).held = none) : (state.agent place).held = none := by
  by_cases hPlace : place = move.place
  · cases move with
    | call other call =>
        obtain rfl : place = other := hPlace
        rw [step, turn_self, (Agent.enter_history _ _ _).2.2] at h
        exact h
    | act other =>
        obtain rfl : place = other := hPlace
        rw [step, turn_self] at h
        exact Agent.held_of_act h
  · rw [agent_step_of_ne hPlace] at h
    exact h

/-- Whoever is alone with a channel after a move was so before it. -/
theorem Sole.of_step {move : Move workers τ T R} {place : Place workers}
    (h : (state.step move).Sole place) : state.Sole place :=
  fun other hOther hChannel hWorker => held_of_step (h other hOther hChannel hWorker)

/-- An edge is alone if nothing has been asked of another on its channel at its worker. -/
theorem sole_of_moves {moves : List (Move workers τ T R)} {place : Place workers}
    (h : ∀ move ∈ moves, move.place.channel = place.channel →
      move.place.worker = place.worker → move.place = place)
    (world : World τ (Message T R)) : ((start world).run moves).Sole place := by
  intro other hOther hChannel hWorker
  rw [agent_run_of_ne]
  · rfl
  · rintro move hMove hSame
    rw [hSame] at hOther hChannel hWorker
    exact hOther (h move hMove hChannel hWorker)

/-- A move announces at most one event. -/
theorem events_step (state : State workers τ T R) (move : Move workers τ T R) :
    ∃ fresh : Option Event, (state.step move).events = state.events ++ fresh.toList := by
  cases move with
  | call place call => exact ⟨none, (List.append_nil _).symm⟩
  | act place =>
      obtain ⟨fresh, -, hEvents⟩ := (state.agent place).act_remembered place.worker state.world
      refine ⟨fresh.bind Effect.event?, hEvents.trans (congrArg _ ?_)⟩
      cases fresh with
      | none => rfl
      | some effect => cases hEvent : effect.event? <;> simp [remembered, hEvent]

/-- If the receipts are those of the messages announced first whenever `P` holds of the state, then
they were so at any earlier time as well, provided that `P` held at that time too. -/
theorem paired {P : State workers τ T R → Prop}
    (hP : ∀ (state : State workers τ T R) move, P (state.step move) → P state)
    {start : State workers τ T R} (hStart : start.events = []) {channel source target : UInt32}
    (hPrefix : ∀ moves, P (start.run moves) →
      marks false channel source target (start.run moves).events <+:
        marks true channel source target (start.run moves).events)
    (moves : List (Move workers τ T R)) (hEnd : P (start.run moves)) :
    Paired channel source target (start.run moves).events := by
  intro earlier hEarlier
  induction moves using List.reverseRecOn with
  | nil =>
      rw [run, List.foldl_nil, hStart] at hEarlier
      rw [List.prefix_nil.mp hEarlier]
      exact List.prefix_rfl
  | append_singleton moves move ih =>
      have hLast : start.run (moves ++ [move]) = (start.run moves).step move :=
        start.run_append moves [move]
      have hNow := hPrefix _ hEnd
      obtain ⟨fresh, hEvents⟩ := (start.run moves).events_step move
      rw [hLast] at hEnd hEarlier hNow
      rw [hEvents] at hEarlier hNow
      cases fresh with
      | none =>
          rw [Option.toList_none, List.append_nil] at hEarlier
          exact ih (hP _ move hEnd) hEarlier
      | some event =>
          rcases List.prefix_concat_iff.mp hEarlier with hAll | hBefore
          · rw [hAll]
            exact hNow
          · exact ih (hP _ move hEnd) hBefore

end State

/-- Whatever is asked of the edges and however their acts interleave, the receipts on an edge between
all workers are those of the messages announced first, and each comes after its announcement. When
the sender is between two calls, the lengths add up to the records it has delivered; when the
receiver is so too, what it has not reported waits in its mailbox. The same holds for a private edge
and its queue.

This is about what memory holds under one channel number, source and target. Since a private edge
claims no number, the worker must have no second edge with it if source and target are the same. -/
theorem every_receipt_matches {fabric : Fabric τ (Message T R)}
    (hFabric : Fabric.create workers = .ok fabric) {logger : Log.Logger}
    (hReached : state.Reachable fabric logger) :
    (∀ (channel : UInt32) (source target : Fin workers),
      (source = target → state.Sole (.exchange channel source)) →
      let sender := state.agent (.exchange channel source)
      let receiver := state.agent (.exchange channel target)
      let sent := marks true channel (UInt32.ofNat source) (UInt32.ofNat target) state.events
      let received := marks false channel (UInt32.ofNat source) (UInt32.ofNat target) state.events
      let delivered := state.delivered channel source target
      Paired channel (UInt32.ofNat source) (UInt32.ofNat target) state.events ∧
        (sender.task = none → sent = delivered.map Message.mark ∧
          ((∀ message ∈ delivered, message.length < UInt64.size) →
            announced channel (UInt32.ofNat source) (UInt32.ofNat target) state.events =
              (delivered.map Message.length).sum) ∧
          (receiver.task = none → sent = received ++
            (Traffic.stemming source (state.world.fabric.box channel target)).map
              Message.mark))) ∧
    ∀ (channel : UInt32) (worker : Fin workers) (name : Nat),
      state.Sole (.pipe channel worker name) →
      let edge := state.agent (.pipe channel worker name)
      let sent := marks true channel (UInt32.ofNat worker) (UInt32.ofNat worker) state.events
      let received := marks false channel (UInt32.ofNat worker) (UInt32.ofNat worker) state.events
      let pushed := edge.slots.flatMap Option.toList
      Paired channel (UInt32.ofNat worker) (UInt32.ofNat worker) state.events ∧
        ∀ pipe, edge.held = some pipe → edge.task = none →
          sent = received ++ pipe.waiting.map Message.mark ∧
          ((∀ message ∈ pushed, message.length < UInt64.size) →
            announced channel (UInt32.ofNat worker) (UInt32.ofNat worker) state.events =
              (pushed.map Message.length).sum) := by
  obtain ⟨moves, rfl⟩ := hReached
  obtain ⟨-, hWorkers, -⟩ := Fabric.create_eq hFabric
  have hInvariant (moves : List (Move workers τ T R)) :
      Invariant ((State.start { fabric, journal := { logger } }).run moves) :=
    .of_run hFabric logger moves
  constructor
  · intro channel source target hSole sender receiver sent received delivered
    have hHolds := hInvariant moves
    refine ⟨?_, fun hSender => ⟨?_, fun hFits => ?_, fun hReceiver => ?_⟩⟩
    · exact State.paired
        (P := fun state => source = target → state.Sole (.exchange channel source))
        (fun _ _ hLater hSame => (hLater hSame).of_step) rfl
        (fun moves => (hInvariant moves).exchange_receipts hWorkers) moves hSole
    · exact hHolds.exchange_delivered hWorkers hSole hSender
    · apply announced_of_lengths _ hFits
      rw [hHolds.exchange_delivered hWorkers hSole hSender, List.map_map]
      rfl
    · exact hHolds.exchange_waiting hWorkers hSole hSender hReceiver
  · intro channel worker name hSole edge sent received pushed
    refine ⟨?_, fun pipe hHeld hIdle => ?_⟩
    · exact State.paired (P := fun state => state.Sole (.pipe channel worker name))
        (fun _ _ => State.Sole.of_step) rfl
        (fun moves => (hInvariant moves).pipe_receipts hWorkers) moves hSole
    · obtain ⟨hSent, hLengths⟩ := (hInvariant moves).pipe_waiting hWorkers hSole hIdle hHeld
      exact ⟨hSent, announced_of_lengths hLengths⟩

end Run

/-- Asks for a call and lets the edge act this many times, or as often as the call takes. -/
def calling {workers : Nat} (place : Place workers) (call : Call Unit Nat UInt64) (acts : Nat) :
    List (Move workers Unit Nat UInt64) :=
  .call place call :: List.replicate acts (.act place)

def connecting {workers : Nat} (place : Place workers) : List (Move workers Unit Nat UInt64) :=
  calling place (.connect () id {} []) 4

/-- The first of two workers sends to both. Before its first message is on its way, it pushes into a
private queue. The second worker receives that message, but not the next. -/
def relayed : List (Move 2 Unit Nat UInt64) :=
  connecting (.exchange 7 0) ++ connecting (.exchange 7 1) ++ connecting (.pipe 8 0 0) ++
    calling (.exchange 7 0) (.push (some { time := 5, data := [1, 2, 3] })) 1 ++
    calling (.exchange 7 0) (.push none) 3 ++
    calling (.pipe 8 0 0) (.push (some { time := 1, data := [9, 4] })) 2 ++
    List.replicate 2 (.act (.exchange 7 0)) ++ calling (.exchange 7 1) .pull 3 ++
    calling (.exchange 7 0) (.push (some { time := 6, data := [5] })) 1 ++
    calling (.exchange 7 0) (.push none) 3 ++ calling (.pipe 8 0 0) .pull 2 ++
    calling (.pipe 8 0 0) (.push (some { time := 2, data := [] })) 2

theorem every_receipt_matches_relayed :
    let fabric : Fabric Unit (Message Nat UInt64) := { workers := 2 }
    let state := (State.start { fabric, journal := { logger := {} } }).run relayed
    Fabric.create 2 = .ok fabric ∧
      (Paired 7 0 1 state.events ∧ marks false 7 0 1 state.events = [(0, 2)] ∧
        marks true 7 0 1 state.events = [(0, 2)] ++
          (Traffic.stemming 0 (state.world.fabric.box 7 1)).map Message.mark ∧
        announced 7 0 1 state.events = 3) ∧
      Paired 8 0 0 state.events ∧ marks true 8 0 0 state.events = [(0, 2), (1, 0)] ∧
        announced 8 0 0 state.events = 2 := by
  intro fabric state
  have hFabric : Fabric.create 2 = .ok fabric := rfl
  have hReached : state.Reachable fabric {} := ⟨relayed, rfl⟩
  obtain ⟨hExchange, hPipe⟩ := every_receipt_matches hFabric hReached
  have hSender : (state.agent (.exchange 7 0)).task = none :=
    Option.isNone_iff_eq_none.mp (by decide +kernel)
  have hReceiver : (state.agent (.exchange 7 1)).task = none :=
    Option.isNone_iff_eq_none.mp (by decide +kernel)
  have hPrivate : (state.agent (.pipe 8 0 0)).task = none :=
    Option.isNone_iff_eq_none.mp (by decide +kernel)
  have hSole : state.Sole (.pipe 8 0 0) := State.sole_of_moves (by decide +kernel) _
  refine ⟨hFabric, ?_, ?_⟩
  · obtain ⟨hPaired, hRest⟩ := hExchange 7 0 1 fun hSame => absurd hSame (by decide)
    obtain ⟨-, hSum, hWaiting⟩ := hRest hSender
    have hReceived : marks false 7 0 1 state.events = [(0, 2)] := by decide +kernel
    have hFits : ∀ message ∈ state.delivered 7 0 1, message.length < UInt64.size := by
      decide +kernel
    have hRecords : ((state.delivered 7 0 1).map Message.length).sum = 3 := by decide +kernel
    refine ⟨hPaired, hReceived, ?_, (hSum hFits).trans hRecords⟩
    rw [← hReceived]
    exact hWaiting hReceiver
  · obtain ⟨hPaired, hRest⟩ := hPipe 8 0 0 hSole
    have hHeld : (state.agent (.pipe 8 0 0)).held.isSome := by decide +kernel
    obtain ⟨pipe, hHeld⟩ := Option.isSome_iff_exists.mp hHeld
    have hSum := (hRest pipe hHeld hPrivate).2
    have hFits : ∀ message ∈ (state.agent (.pipe 8 0 0)).slots.flatMap Option.toList,
        message.length < UInt64.size := by decide +kernel
    have hSent : marks true 8 0 0 state.events = [(0, 2), (1, 0)] := by decide +kernel
    have hRecords : (((state.agent (.pipe 8 0 0)).slots.flatMap Option.toList).map
        Message.length).sum = 2 := by decide +kernel
    exact ⟨hPaired, hSent, (hSum hFits).trans hRecords⟩

/-- A worker that uses one number twice: a private queue gets a message of one record, and then a
message of two records goes from the worker to itself and is received. -/
def doubled : List (Move 1 Unit Nat UInt64) :=
  connecting (.pipe 3 0 0) ++ connecting (.exchange 3 0) ++
    calling (.pipe 3 0 0) (.push (some { time := 5, data := [1] })) 2 ++
    calling (.exchange 3 0) (.push (some { time := 5, data := [1, 2] })) 3 ++
    calling (.exchange 3 0) .pull 3

/-- Private edges claim no channel number, and events name no edge. So the first receipt seems to
match the first message sent, which in truth still waits elsewhere. -/
theorem doubled_not_paired :
    let fabric : Fabric Unit (Message Nat UInt64) := { workers := 1 }
    let state := (State.start { fabric, journal := { logger := {} } }).run doubled
    Fabric.create 1 = .ok fabric ∧
      (∀ place ∈ [Place.exchange 3 0, .pipe 3 0 0], (state.agent place).task.isNone) ∧
      marks true 3 0 0 state.events = [(0, 1), (0, 2)] ∧
      marks false 3 0 0 state.events = [(0, 2)] ∧ ¬Paired 3 0 0 state.events := by
  intro fabric state
  have hSent : marks true 3 0 0 state.events = [(0, 1), (0, 2)] := by decide +kernel
  have hReceived : marks false 3 0 0 state.events = [(0, 2)] := by decide +kernel
  refine ⟨rfl, by decide +kernel, hSent, hReceived, fun hPaired => ?_⟩
  have hNow := hPaired state.events List.prefix_rfl
  rw [hSent, hReceived] at hNow
  exact absurd hNow (by decide)

end Dataflow.Network
