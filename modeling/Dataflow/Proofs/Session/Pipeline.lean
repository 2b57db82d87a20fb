import Dataflow.Proofs.FanOut.Stamps
import Dataflow.Proofs.Session.Frame

/-! Edges with a private queue. Messages leave such an edge in the order in which they were pushed,
numbered and marked by its sender, whatever happens to other edges in between. -/
namespace Dataflow

variable {τ T R : Type}

namespace Step

/-- The messages that a step pushes into the edge of this name. -/
def pushed (name : String) : Step τ T R → List (Message T R)
  | push other _ message | send other _ message => if other = name then [message] else []
  | pushBatch other _ time data => if other = name then [{ time, data }] else []
  | setLevel _ | connect _ _ | done _ _ | pull _ | recv _ | drain _ | info _ | buffered _ _
  | drop _ => []

/-- The messages that a step takes out of the edge of this name, going by the answer to it. -/
def handed (name : String) : Step τ T R → Answer T R → List (Message T R)
  | pull other, .slot content => if other = name then content.toList else []
  | recv other, .message message => if other = name then message.toList else []
  | drain other, .messages messages => if other = name then messages else []
  | _, _ => []

/-- Whether a step puts another edge, or none, in the place of the edge of this name. -/
def Rebinds (name : String) : Step τ T R → Prop
  | connect other _ | drop other => other = name
  | setLevel _ | push _ _ _ | send _ _ _ | done _ _ | pushBatch _ _ _ _ | pull _ | recv _ | drain _
  | info _ | buffered _ _ => False

end Step

namespace Edge

variable {edge : Edge τ T R} {sender : Sender} {waiting : List (Message T R)}

/-- A slot that is pushed joins the queue, with a stamp if there is a message in it. -/
theorem push_queue [DecidableEq T] [Husk R] (hFront : edge.front = .sender sender)
    (hOutlet : edge.outlet = .queue waiting) (dst : Nat) (slot : Option (Message T R))
    (world : World τ (Message T R)) :
    ∃ world', world'.fabric = world.fabric ∧ Edge.push dst slot (edge, world) =
      { fault := none
        state :=
          ({ edge with
              front := .sender { sender with
                counter := sender.counter + UInt64.ofNat slot.toList.length }
              outlet := .queue (waiting ++ slot.toList.map sender.stamp) }, world')
        slot := none } := by
  cases slot with
  | none =>
      refine ⟨world, rfl, ?_⟩
      simp [Edge.push, hFront, hOutlet, Sender.push, Outlet.medium, Outlet.offer]
  | some message =>
      have hNote : ∃ world', world'.fabric = world.fabric ∧
          Outlet.medium.noteTo sender.sink (sender.event message) (.queue waiting, world) =
            (.queue waiting, world') := by
        cases sender.sink with
        | none => exact ⟨world, rfl, rfl⟩
        | some sink => exact ⟨world.note (sender.event message) sink, rfl, rfl⟩
      obtain ⟨world', hFabric, hNoted⟩ := hNote
      refine ⟨world', hFabric, ?_⟩
      simp only [Edge.push, hFront, hOutlet, Sender.push, hNoted]
      rfl

/-- A report is an event and no more. -/
theorem report_fabric (edge : Edge τ T R) (message : Message T R)
    (world : World τ (Message T R)) : (edge.report message world).fabric = world.fabric := by
  unfold report
  cases edge.receiver with
  | none => rfl
  | some receiver =>
      dsimp only
      cases receiver.sink <;> rfl

theorem pull_queue (hOutlet : edge.outlet = .queue waiting) (world : World τ (Message T R)) :
    ∃ world', world'.fabric = world.fabric ∧ Edge.pull (edge, world) =
      (waiting.head?, { edge with outlet := .queue waiting.tail }, world') := by
  simp only [Edge.pull, hOutlet, Outlet.take]
  cases waiting with
  | nil => exact ⟨world, rfl, rfl⟩
  | cons message rest => exact ⟨_, report_fabric _ message world, rfl⟩

theorem pullUpTo_queue (limit : Nat) (hOutlet : edge.outlet = .queue waiting)
    (world : World τ (Message T R)) :
    ∃ world', world'.fabric = world.fabric ∧ Edge.pullUpTo limit (edge, world) =
      (waiting.take limit, { edge with outlet := .queue (waiting.drop limit) }, world') := by
  induction limit generalizing edge waiting world with
  | zero =>
      refine ⟨world, rfl, ?_⟩
      rw [List.take_zero, List.drop_zero, ← hOutlet]
      rfl
  | succ limit ih =>
      obtain ⟨after, hAfter, hPull⟩ := pull_queue hOutlet world
      cases waiting with
      | nil =>
          refine ⟨after, hAfter, ?_⟩
          simp only [Edge.pullUpTo, hPull]
          rfl
      | cons message rest =>
          have hRest : ({ edge with outlet := .queue rest } : Edge τ T R).outlet = .queue rest :=
            rfl
          obtain ⟨world', hFabric, hPulled⟩ := ih hRest after
          refine ⟨world', hFabric.trans hAfter, ?_⟩
          simp only [Edge.pullUpTo, hPull, List.head?_cons, List.tail_cons, hPulled]
          rfl

theorem drain_queue (hOutlet : edge.outlet = .queue waiting) (world : World τ (Message T R)) :
    ∃ world', world'.fabric = world.fabric ∧ Edge.drain (edge, world) =
      (waiting, { edge with outlet := .queue [] }, world') := by
  obtain ⟨world', hFabric, hPull⟩ := pullUpTo_queue waiting.length hOutlet world
  rw [List.take_length, List.drop_length] at hPull
  refine ⟨world', hFabric, ?_⟩
  simp only [Edge.drain, hOutlet, Outlet.waiting]
  exact hPull

end Edge

/-- Messages as a sender with this source numbers and marks them, in order. -/
def marked (source : UInt32) (messages : List (Message T R)) : List (Message T R) :=
  messages.mapIdx fun n message => { message with seq := UInt64.ofNat n, source }

theorem marked_append (source : UInt32) (messages : List (Message T R))
    (slot : Option (Message T R)) {sender : Sender} (hSource : sender.source = source)
    (hCounter : sender.counter = UInt64.ofNat messages.length) :
    marked source (messages ++ slot.toList) =
      marked source messages ++ slot.toList.map sender.stamp := by
  cases slot with
  | none => simp only [Option.toList_none, List.append_nil, List.map_nil]
  | some message =>
      rw [Option.toList_some, marked, List.mapIdx_concat, List.map_singleton, Sender.stamp,
        hSource, hCounter]
      rfl

namespace Edge

def Piped (source : UInt32) (pushed handed : List (Message T R)) (edge : Edge τ T R) : Prop :=
  ∃ sender waiting, edge.front = .sender sender ∧ edge.outlet = .queue waiting ∧
    sender.source = source ∧ sender.counter = UInt64.ofNat pushed.length ∧
      handed ++ waiting = marked source pushed

namespace Piped

variable {source : UInt32} {pushed handed : List (Message T R)} {edge : Edge τ T R}

/-- A push adds a message to the pipe, stamped with the next number. -/
theorem push [DecidableEq T] [Husk R] (h : edge.Piped source pushed handed) (dst : Nat)
    (slot : Option (Message T R)) (world : World τ (Message T R)) :
    (Edge.push dst slot (edge, world)).state.1.Piped source (pushed ++ slot.toList) handed := by
  obtain ⟨sender, waiting, hFront, hOutlet, hSource, hCounter, hMarked⟩ := h
  obtain ⟨world', -, hPush⟩ := push_queue hFront hOutlet dst slot world
  rw [hPush]
  refine ⟨_, _, rfl, rfl, hSource, ?_, ?_⟩
  · rw [List.length_append, UInt64.ofNat_add, ← hCounter]
  · rw [marked_append source pushed slot hSource hCounter, ← hMarked, List.append_assoc]

/-- The next message to be taken out is the first of those that wait. -/
theorem pull (h : edge.Piped source pushed handed) (world : World τ (Message T R)) :
    (Edge.pull (edge, world)).1 = (marked source pushed)[handed.length]? ∧
      (Edge.pull (edge, world)).2.1.Piped source pushed
        (handed ++ (Edge.pull (edge, world)).1.toList) := by
  obtain ⟨sender, waiting, hFront, hOutlet, hSource, hCounter, hMarked⟩ := h
  obtain ⟨world', -, hPull⟩ := pull_queue hOutlet world
  rw [hPull, ← hMarked]
  refine ⟨?_, sender, waiting.tail, hFront, rfl, hSource, hCounter, ?_⟩
  · rw [List.getElem?_append_right (Nat.le_refl _), Nat.sub_self, List.head?_eq_getElem?]
  · rw [← hMarked, List.append_assoc]
    cases waiting <;> rfl

/-- A drain hands out all that is left in the pipe. -/
theorem drain (h : edge.Piped source pushed handed) (world : World τ (Message T R)) :
    (Edge.drain (edge, world)).2.1.Piped source pushed
      (handed ++ (Edge.drain (edge, world)).1) := by
  obtain ⟨sender, waiting, hFront, hOutlet, hSource, hCounter, hMarked⟩ := h
  obtain ⟨world', -, hDrain⟩ := drain_queue hOutlet world
  rw [hDrain]
  refine ⟨sender, [], hFront, rfl, hSource, hCounter, ?_⟩
  rw [List.append_nil, hMarked]

end Piped

end Edge

namespace Step

variable {step : Step τ T R} {name : String}

theorem pushed_of_ne (h : step.name? ≠ some name) : step.pushed name = [] := by
  cases step with
  | push other dst message => exact if_neg fun hSame => h (congrArg some hSame)
  | send other dst message => exact if_neg fun hSame => h (congrArg some hSame)
  | pushBatch other dst time data => exact if_neg fun hSame => h (congrArg some hSame)
  | _ => rfl

theorem handed_of_ne (h : step.name? ≠ some name) (answer : Answer T R) :
    step.handed name answer = [] := by
  unfold handed
  split
  · exact if_neg fun hSame => h (congrArg some hSame)
  · exact if_neg fun hSame => h (congrArg some hSame)
  · exact if_neg fun hSame => h (congrArg some hSame)
  · rfl

end Step

namespace Session

def Piped (session : Session τ T R) (name : String) (source : UInt32)
    (pushed handed : List (Message T R)) : Prop :=
  ∃ edge, session.edge? name = some edge ∧ edge.Piped source pushed handed

variable {session : Session τ T R} {name : String} {source : UInt32}
  {pushed handed : List (Message T R)}

/-- A pull hands out the oldest message that has not been handed out yet. -/
theorem Piped.pull (h : session.Piped name source pushed handed) :
    ∃ message, (session.receive name Edge.pull).2 = .ok message ∧
      message = (marked source pushed)[handed.length]? ∧
        (session.receive name Edge.pull).1.Piped name source pushed
          (handed ++ message.toList) := by
  obtain ⟨edge, hEdge, piped⟩ := h
  obtain ⟨hNext, hPiped⟩ := piped.pull session.world
  simp only [receive, hEdge]
  exact ⟨_, rfl, hNext, _, edge?_setEdge_self _ _ _, hPiped⟩

/-- A drain hands out all messages that have not been handed out yet. -/
theorem Piped.drain (h : session.Piped name source pushed handed) :
    ∃ messages, (session.receive name Edge.drain).2 = .ok messages ∧
      (session.receive name Edge.drain).1.Piped name source pushed (handed ++ messages) := by
  obtain ⟨edge, hEdge, piped⟩ := h
  simp only [receive, hEdge]
  exact ⟨_, rfl, _, edge?_setEdge_self _ _ _, piped.drain session.world⟩

variable [DecidableEq T] [Husk R]

/-- An offer to the edge adds to what was pushed. -/
theorem Piped.offer (h : session.Piped name source pushed handed) (dst : Nat)
    (slot : Option (Message T R)) :
    (session.offer name dst slot).1.Piped name source (pushed ++ slot.toList) handed := by
  obtain ⟨edge, hEdge, piped⟩ := h
  simp only [Session.offer, hEdge]
  exact ⟨_, edge?_setEdge_self _ _ _, piped.push dst slot session.world⟩

variable [DecidableEq τ]

/-- A new pipeline is empty, and its sender is the worker that holds it. -/
theorem piped_connect {connection : Connection τ T R} {worker : Nat}
    (hPact : connection.pact = .pipeline worker) (hWorker : session.hasWorker worker = true)
    (name : String) :
    (session.step (.connect name connection)).1.Piped name (session.index worker) [] [] := by
  simp only [step, perform, connect, hPact, hWorker, if_true]
  exact ⟨_, edge?_setEdge_self _ _ _, _, [], rfl, rfl, rfl, rfl, rfl⟩

/-- A step about the pipeline that leaves it in its place. -/
theorem Piped.perform (h : session.Piped name source pushed handed) {step : Step τ T R}
    (hName : step.name? = some name) (hStep : ¬step.Rebinds name) :
    (session.perform step).1.Piped name source (pushed ++ step.pushed name)
      (handed ++ step.handed name (session.perform step).2.1) := by
  have hIdle : session.Piped name source (pushed ++ []) (handed ++ []) := by
    rw [List.append_nil, List.append_nil]
    exact h
  cases step with
  | setLevel level => cases hName
  | connect other connection => exact absurd (Option.some.inj hName) hStep
  | drop other => exact absurd (Option.some.inj hName) hStep
  | push other dst message =>
      cases hName
      have hOffer := h.offer dst (some message)
      simp only [Session.perform, Step.pushed, Step.handed, if_true, List.append_nil]
      exact hOffer
  | send other dst message =>
      cases hName
      have hOffer := h.offer dst (some message)
      simp only [Session.perform, Step.pushed, Step.handed, if_true, List.append_nil]
      exact hOffer
  | done other dst =>
      cases hName
      have hOffer := h.offer dst none
      simp only [Session.perform, Step.pushed, Step.handed, List.append_nil]
      rw [Option.toList_none, List.append_nil] at hOffer
      exact hOffer
  | pushBatch other dst time data =>
      cases hName
      have hOffer := h.offer dst (some { time, data })
      simp only [Session.perform_pushBatch, Step.pushed, if_true]
      split
      · simp only [Step.handed, List.append_nil]
        exact hOffer
      · simp only [Step.handed, List.append_nil]
        exact hOffer
  | pull other =>
      cases hName
      obtain ⟨message, hMessage, -, hPiped⟩ := h.pull
      simp only [Session.perform, hMessage, answering, Step.pushed, Step.handed, if_true,
        List.append_nil]
      exact hPiped
  | recv other =>
      cases hName
      obtain ⟨message, hMessage, -, hPiped⟩ := h.pull
      simp only [Session.perform, hMessage, answering, Step.pushed, Step.handed, if_true,
        List.append_nil]
      exact hPiped
  | drain other =>
      cases hName
      obtain ⟨messages, hMessages, hPiped⟩ := h.drain
      simp only [Session.perform, hMessages, answering, Step.pushed, Step.handed, if_true,
        List.append_nil]
      exact hPiped
  | info other => exact hIdle
  | buffered other dst =>
      obtain ⟨edge, hEdge, piped⟩ := hIdle
      have hOther := Option.some.inj hName
      subst hOther
      simp only [Session.perform, hEdge]
      split
      · exact ⟨edge, hEdge, piped⟩
      · exact ⟨edge, hEdge, piped⟩

/-- One step, be it about the pipeline or not. -/
theorem Piped.step (h : session.Piped name source pushed handed) {step : Step τ T R}
    (hStep : ¬step.Rebinds name) :
    (session.step step).1.Piped name source (pushed ++ step.pushed name)
      (handed ++ step.handed name (session.step step).2.answer) := by
  by_cases hName : step.name? = some name
  · exact h.perform hName hStep
  · rw [Step.pushed_of_ne hName, Step.handed_of_ne hName, List.append_nil, List.append_nil]
    obtain ⟨edge, hEdge, piped⟩ := h
    exact ⟨edge, (edge?_perform_of_ne hName session).trans hEdge, piped⟩

def handedOut (name : String) (session : Session τ T R) (steps : List (Step τ T R)) :
    List (Message T R) :=
  (steps.zip (session.run steps)).flatMap fun p => p.1.handed name p.2.answer

/-- Through any steps the messages come out as they went in. -/
theorem Piped.run (h : session.Piped name source pushed handed) {steps : List (Step τ T R)}
    (hSteps : ∀ step ∈ steps, ¬step.Rebinds name) :
    (session.after steps).Piped name source (pushed ++ steps.flatMap (Step.pushed name))
      (handed ++ session.handedOut name steps) := by
  induction steps generalizing session pushed handed with
  | nil =>
      rw [List.flatMap_nil, handedOut, List.zip_nil_left, List.flatMap_nil, List.append_nil,
        List.append_nil]
      exact h
  | cons step rest ih =>
      have hStep := h.step (hSteps step List.mem_cons_self)
      have hRest := ih hStep fun other hOther => hSteps other (List.mem_cons_of_mem step hOther)
      rw [List.append_assoc, List.append_assoc] at hRest
      exact hRest

/-- What a pipeline hands out is what was pushed into it, in that order, each message with its
number and with the worker that holds the pipeline as its source. A pull hands out the next. -/
theorem pipeline_delivery {connection : Connection τ T R} {worker : Nat}
    (hPact : connection.pact = .pipeline worker) (hWorker : session.hasWorker worker = true)
    (name : String) {steps : List (Step τ T R)} (hSteps : ∀ step ∈ steps, ¬step.Rebinds name) :
    let opened := (session.step (.connect name connection)).1
    let stamped := marked (session.index worker) (steps.flatMap (Step.pushed name))
    let handed := opened.handedOut name steps
    handed <+: stamped ∧
      ((opened.after steps).step (.pull name)).2.answer = .slot stamped[handed.length]? := by
  intro opened stamped handed
  have hPiped := (piped_connect hPact hWorker name).run hSteps
  rw [List.nil_append, List.nil_append] at hPiped
  obtain ⟨message, hMessage, hNext, -⟩ := hPiped.pull
  obtain ⟨edge, -, sender, waiting, -, -, -, -, hMarked⟩ := hPiped
  refine ⟨⟨waiting, hMarked⟩, ?_⟩
  have hAnswer : ((opened.after steps).step (.pull name)).2.answer =
      (answering ((opened.after steps).receive name Edge.pull).2 Answer.slot).1 := rfl
  have hPulled : ((opened.after steps).receive name Edge.pull).2 = .ok message := hMessage
  rw [hAnswer, hPulled, ← hNext]
  rfl

end Session

end Dataflow
