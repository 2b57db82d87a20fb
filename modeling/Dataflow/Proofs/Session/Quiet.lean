import Dataflow.Proofs.FanOut.Morphism
import Dataflow.Proofs.Session.Frame

/-! Observation leaves no mark on what is observed. A quiet session writes no log and keeps no
events, and none of its ends has a sink. Every session goes step by step as its quiet image does,
so two sessions of one quiet image never tell each other apart but by their journals. -/
namespace Dataflow

variable {τ M T R : Type}

def World.quiet (world : World τ M) : World τ M := { fabric := world.fabric }

@[simp] theorem World.quiet_log (world : World τ M) (level : Level) (worker channel : UInt32)
    (text : Bytes) : (world.log level worker channel text).quiet = world.quiet :=
  rfl

/-- A world that is quiet stays so. -/
@[simp] theorem World.log_quiet (world : World τ M) (level : Level) (worker channel : UInt32)
    (text : Bytes) : world.quiet.log level worker channel text = world.quiet := by
  have hSilent : ({} : Journal).log level worker channel text = {} :=
    congrArg (fun logger => ({ logger } : Journal))
      (Log.Logger.log_of_not_enabled (Level.off_enables level) worker channel text)
  rw [World.log, World.quiet, hSilent]

namespace Outlet

def quieten (state : Outlet T R × World τ (Message T R)) : Outlet T R × World τ (Message T R) :=
  (state.1, state.2.quiet)

/-- Destinations do the same when nobody watches. -/
theorem medium_morphism :
    (medium (τ := τ) (T := T) (R := R)).Morphism id (fun _ => none) quieten medium where
  note sink event state := by
    cases sink <;> rfl
  offer dst slot state := by
    obtain ⟨outlet, world⟩ := state
    cases outlet with
    | queue waiting => rfl
    | mailboxes channel owner => cases slot <;> rfl
    | recorders bank =>
        simp only [medium, offer, quieten]
        cases (bank.answer dst slot).1 <;> rfl

/-- The same message is taken. -/
theorem take_quieten (state : Outlet T R × World τ (Message T R)) :
    take (quieten state) = ((take state).1, quieten (take state).2) := by
  obtain ⟨outlet, world⟩ := state
  cases outlet <;> rfl

theorem peers_quieten (state : Outlet T R × World τ (Message T R)) :
    peers (quieten state) = peers state := by
  obtain ⟨outlet, world⟩ := state
  cases outlet <;> rfl

theorem waiting_quieten (state : Outlet T R × World τ (Message T R)) :
    waiting (quieten state) = waiting state := by
  obtain ⟨outlet, world⟩ := state
  cases outlet <;> rfl

end Outlet

def Front.quiet : Front T R → Front T R
  | bare => bare
  | sender s => sender (s.redirect fun _ => none)
  | fanOut fan => fanOut (fan.redirect fun _ => none)

namespace Edge

/-- The edge with no end that reports. Everything else is as it was. -/
def quiet (edge : Edge τ T R) : Edge τ T R :=
  { edge with
    front := edge.front.quiet
    receiver := edge.receiver.map fun receiver => { receiver with sink := none } }

def quieten (state : Edge τ T R × World τ (Message T R)) : Edge τ T R × World τ (Message T R) :=
  (state.1.quiet, state.2.quiet)

/-- An edge takes slots in the same way when nobody watches. -/
theorem push_quieten [DecidableEq T] [Husk R] (dst : Nat) (slot : Option (Message T R))
    (state : Edge τ T R × World τ (Message T R)) :
    push dst slot (quieten state) = (push dst slot state).map id quieten := by
  obtain ⟨edge, world⟩ := state
  have hOutlet : (edge.quiet.outlet, world.quiet) = Outlet.quieten (edge.outlet, world) := rfl
  cases hFront : edge.front with
  | bare =>
      have hQuiet : edge.quiet.front = .bare := congrArg Front.quiet hFront
      have hOffer := Outlet.medium_morphism.offer dst slot (edge.outlet, world)
      simp only [push, quieten, hFront, hQuiet, hOutlet, Outlet.peers_quieten, Offered.map_id]
      split
      · rw [show Outlet.offer dst slot (Outlet.quieten (edge.outlet, world)) = _ from hOffer,
          Offered.map_id]
        rfl
      · rfl
  | sender sender =>
      have hQuiet : edge.quiet.front = .sender (sender.redirect fun _ => none) :=
        congrArg Front.quiet hFront
      have hPush := Sender.push_redirect Outlet.medium_morphism 0 slot sender (edge.outlet, world)
      simp only [push, quieten, hFront, hQuiet, hOutlet, hPush, Offered.map_id]
      rfl
  | fanOut fan =>
      have hQuiet : edge.quiet.front = .fanOut (fan.redirect fun _ => none) :=
        congrArg Front.quiet hFront
      have hPush := FanOut.push_through Outlet.medium_morphism slot (fan, edge.outlet, world)
      rw [FanOut.through_mk] at hPush
      simp only [push, quieten, hFront, hQuiet, hOutlet, hPush, Offered.map_id]
      rfl

/-- A report changes nothing but what is watched. -/
theorem quiet_report (edge : Edge τ T R) (message : Message T R) (world : World τ (Message T R)) :
    (edge.report message world).quiet = edge.quiet.report message world.quiet := by
  unfold report quiet
  cases edge.receiver with
  | none => rfl
  | some receiver =>
      obtain ⟨channel, index, sink⟩ := receiver
      cases sink <;> rfl

/-- The same message is pulled. -/
theorem pull_quieten (state : Edge τ T R × World τ (Message T R)) :
    pull (quieten state) = ((pull state).1, quieten (pull state).2) := by
  obtain ⟨edge, world⟩ := state
  have hTake := Outlet.take_quieten (edge.outlet, world)
  have hOutlet : (edge.quiet.outlet, world.quiet) = Outlet.quieten (edge.outlet, world) := rfl
  simp only [pull, quieten, hOutlet, hTake]
  obtain ⟨message, outlet, world'⟩ := Outlet.take (edge.outlet, world)
  cases message with
  | none => rfl
  | some message =>
      have hReport := quiet_report { edge with outlet } message world'
      simp only [hReport]
      rfl

theorem pullUpTo_quieten (limit : Nat) (state : Edge τ T R × World τ (Message T R)) :
    pullUpTo limit (quieten state) =
      ((pullUpTo limit state).1, quieten (pullUpTo limit state).2) := by
  induction limit generalizing state with
  | zero => rfl
  | succ limit ih =>
      simp only [pullUpTo, pull_quieten]
      obtain ⟨message, state'⟩ := pull state
      cases message with
      | none => rfl
      | some message => simp only [ih]

/-- The same messages are drained. -/
theorem drain_quieten (state : Edge τ T R × World τ (Message T R)) :
    drain (quieten state) = ((drain state).1, quieten (drain state).2) := by
  have hWaiting : Outlet.waiting ((quieten state).1.outlet, (quieten state).2) =
      Outlet.waiting (state.1.outlet, state.2) := Outlet.waiting_quieten (state.1.outlet, state.2)
  rw [drain, drain, hWaiting, pullUpTo_quieten]

/-- The same records wait. -/
theorem buffered?_quiet (edge : Edge τ T R) (dst : Nat) :
    edge.quiet.buffered? dst = edge.buffered? dst := by
  unfold buffered? quiet
  cases edge.front with
  | bare => rfl
  | sender sender => rfl
  | fanOut fan => exact FanOut.buffered?_redirect fan dst

end Edge

def Connection.quiet (connection : Connection τ T R) : Connection τ T R :=
  { connection with address := [], tracing := .off }

/-- The step with nothing said about levels, sinks and addresses. A step about levels alone is
none. -/
def Step.quiet? : Step τ T R → Option (Step τ T R)
  | setLevel _ => none
  | connect name connection => some (connect name connection.quiet)
  | step => some step

/-- All of the report but what was logged and remembered, and where the ends report. -/
def Report.quiet (report : Report τ T R) : Report τ T R :=
  { report with edge := report.edge.map Edge.quiet, events := [], lines := [] }

namespace Session

/-- The session with a silent journal and no end that reports. -/
def quiet (session : Session τ T R) : Session τ T R where
  host := session.host
  world := session.world.quiet
  edges := session.edges.map fun entry => (entry.1, entry.2.quiet)

theorem edge?_quiet (session : Session τ T R) (name : String) :
    session.quiet.edge? name = (session.edge? name).map Edge.quiet := by
  unfold edge? quiet
  dsimp only
  induction session.edges with
  | nil => rfl
  | cons entry rest ih =>
      rw [List.map_cons, List.lookup_cons, List.lookup_cons, ih]
      cases name == entry.1 <;> rfl

theorem quiet_setEdge (session : Session τ T R) (name : String) (edge : Edge τ T R) :
    (session.setEdge name edge).quiet = session.quiet.setEdge name edge.quiet := by
  simp only [setEdge, quiet, List.map_cons, List.filter_map]
  rfl

/-- The same distributors can be made. -/
theorem distributing_quiet (connection : Connection τ T R) (index : UInt32) (peers : Nat)
    (hash : R → UInt64) (capacity : Nat) (outlet : Outlet T R) :
    distributing connection.quiet index peers hash capacity outlet =
      (distributing connection index peers hash capacity outlet).map Edge.quiet := by
  have hSenders : Sender.towardsAll connection.channel index none peers =
      (Sender.towardsAll connection.channel index (connection.tracing.sink index) peers).map
        (Sender.redirect fun _ => none) := by
    rw [Sender.towardsAll, Sender.towardsAll, List.map_map]
    rfl
  have hCreate := FanOut.create_redirect (fun _ => none)
    (Sender.towardsAll connection.channel index (connection.tracing.sink index) peers) capacity hash
      (T := T)
  have hQuiet : Tracing.sink index connection.quiet.tracing = none := rfl
  have hChannel : connection.quiet.channel = connection.channel := rfl
  simp only [distributing, hQuiet, hChannel, hSenders, hCreate]
  cases FanOut.create (T := T)
      (Sender.towardsAll connection.channel index (connection.tracing.sink index) peers) capacity
      hash with
  | error error => rfl
  | ok fan => rfl

theorem quiet_openQueue (session : Session τ T R) (worker : Nat) (connection : Connection τ T R) :
    session.quiet.openQueue worker connection.quiet =
      Outlet.quieten (session.openQueue worker connection) := by
  simp only [openQueue, Outlet.quieten, quiet, World.log_quiet, World.quiet_log]

section

variable [DecidableEq τ]

/-- The same channels can be claimed. -/
theorem quiet_openExchange (session : Session τ T R) (worker : Nat)
    (connection : Connection τ T R) :
    session.quiet.openExchange worker connection.quiet =
      ((session.openExchange worker connection).1,
        (session.openExchange worker connection).2.quiet) := by
  unfold openExchange quiet
  cases session.host with
  | lone =>
      dsimp only
      rw [World.log_quiet]
      rfl
  | shared =>
      have hKind : connection.quiet.kind = connection.kind := rfl
      have hChannel : connection.quiet.channel = connection.channel := rfl
      simp only [World.claim, hKind, hChannel, show session.world.quiet.fabric =
        session.world.fabric from rfl]
      cases session.world.fabric.claim connection.channel connection.kind worker with
      | error error => rfl
      | ok fabric =>
          have hOpened : ({ session.world.quiet with fabric } : World τ (Message T R)) =
              World.quiet { session.world with fabric } := rfl
          simp only [hOpened, World.log_quiet, World.quiet_log]

/-- Connecting makes the same edge, or fails for the same reason, and leaves the same fabric. -/
theorem quiet_connect (session : Session τ T R) (connection : Connection τ T R) :
    session.quiet.connect connection.quiet =
      ((session.connect connection).1.map Edge.quiet, (session.connect connection).2.quiet) := by
  have hPact : connection.quiet.pact = connection.pact := rfl
  have hWorker (worker : Nat) : session.quiet.hasWorker worker = session.hasWorker worker := rfl
  have hIndex (worker : Nat) : session.quiet.index worker = session.index worker := rfl
  unfold connect
  rw [hPact]
  cases connection.pact with
  | pipeline worker =>
      simp only [hWorker, hIndex, quiet_openQueue]
      split <;> rfl
  | barePipeline worker =>
      simp only [hWorker, quiet_openQueue]
      split <;> rfl
  | exchange worker hash capacity =>
      simp only [hWorker, hIndex, quiet_openExchange]
      split
      · obtain ⟨answer, world⟩ := session.openExchange worker connection
        cases answer with
        | error error => rfl
        | ok outlet =>
            have hPeers : Outlet.peers (outlet, world.quiet) = Outlet.peers (outlet, world) :=
              Outlet.peers_quieten (outlet, world)
            simp only [hPeers, distributing_quiet]
      · rfl
  | bareExchange worker =>
      simp only [hWorker, quiet_openExchange]
      split
      · obtain ⟨answer, world⟩ := session.openExchange worker connection
        cases answer <;> rfl
      · rfl
  | loopback source target index => rfl
  | recordedExchange index hash capacity bank =>
      simp only [distributing_quiet]
      rfl
  | recorded index target bank => rfl

end

theorem quiet_receive {α : Type} (session : Session τ T R) (name : String)
    {use : Edge τ T R × World τ (Message T R) → α × Edge τ T R × World τ (Message T R)}
    (hUse : ∀ state, use (Edge.quieten state) = ((use state).1, Edge.quieten (use state).2)) :
    session.quiet.receive name use =
      ((session.receive name use).1.quiet, (session.receive name use).2) := by
  unfold receive
  rw [edge?_quiet]
  cases session.edge? name with
  | none => rfl
  | some edge =>
      have hState : use (edge.quiet, session.quiet.world) =
          ((use (edge, session.world)).1, Edge.quieten (use (edge, session.world)).2) :=
        hUse (edge, session.world)
      simp only [Option.map_some, hState]
      rw [quiet_setEdge]
      rfl

variable [DecidableEq T] [Husk R]

/-- An offer by name comes to the same. -/
theorem quiet_offer (session : Session τ T R) (name : String) (dst : Nat)
    (slot : Option (Message T R)) :
    session.quiet.offer name dst slot =
      ((session.offer name dst slot).1.quiet, (session.offer name dst slot).2) := by
  unfold offer
  rw [edge?_quiet]
  cases session.edge? name with
  | none => rfl
  | some edge =>
      have hPush : Edge.push dst slot (edge.quiet, session.quiet.world) =
          (Edge.push dst slot (edge, session.world)).map id Edge.quieten :=
        Edge.push_quieten dst slot (edge, session.world)
      simp only [Option.map_some, hPush, Offered.map_id]
      rw [quiet_setEdge]
      rfl

variable [DecidableEq τ]

/-- A step gives the same answer and the same error with nobody watching, and it leads to what the
step otherwise leads to. A step about levels alone leads nowhere. -/
theorem quiet_perform (session : Session τ T R) (step : Step τ T R) :
    match step.quiet? with
    | none => (session.perform step).1.quiet = session.quiet
    | some step' =>
      session.quiet.perform step' = ((session.perform step).1.quiet, (session.perform step).2) := by
  cases step with
  | setLevel level => rfl
  | connect name connection =>
      simp only [Step.quiet?, perform, quiet_connect]
      obtain ⟨made, world⟩ := session.connect connection
      cases made with
      | error error => rfl
      | ok edge =>
          simp only [Except.map, quiet_setEdge]
          rfl
  | push name dst message => simp only [Step.quiet?, perform, quiet_offer]
  | send name dst message => simp only [Step.quiet?, perform, quiet_offer]
  | done name dst => simp only [Step.quiet?, perform, quiet_offer]
  | pushBatch name dst time data =>
      simp only [Step.quiet?, perform_pushBatch, quiet_offer]
      obtain ⟨after, error, slot⟩ := session.offer name dst (some { time, data })
      cases error <;> rfl
  | pull name => simp only [Step.quiet?, perform, quiet_receive session name Edge.pull_quieten]
  | recv name => simp only [Step.quiet?, perform, quiet_receive session name Edge.pull_quieten]
  | drain name => simp only [Step.quiet?, perform, quiet_receive session name Edge.drain_quieten]
  | info name =>
      simp only [Step.quiet?, perform, edge?_quiet, Option.isNone_map]
  | buffered name dst =>
      simp only [Step.quiet?, perform, edge?_quiet]
      cases session.edge? name with
      | none => rfl
      | some edge =>
          simp only [Option.map_some, Edge.buffered?_quiet]
          cases edge.buffered? dst <;> rfl
  | drop name =>
      simp only [Step.quiet?, perform, edge?_quiet, Option.isNone_map]
      simp only [quiet, List.filter_map]
      rfl

variable {session : Session τ T R} {step step' : Step τ T R}

/-- A step about levels alone leads nowhere. -/
theorem quiet_step_of_none (h : step.quiet? = none) :
    (session.step step).1.quiet = session.quiet := by
  have hPerform := session.quiet_perform step
  rw [h] at hPerform
  exact hPerform

omit [DecidableEq T] [Husk R] [DecidableEq τ] in
theorem concerned?_quiet (h : step.quiet? = some step') (session : Session τ T R)
    (error : Option StepError) :
    session.quiet.concerned? step' error = (session.concerned? step error).map Edge.quiet := by
  cases step with
  | setLevel level => cases h
  | connect name connection =>
      cases h
      cases error with
      | none => exact edge?_quiet session name
      | some error => rfl
  | _ =>
      cases h
      exact edge?_quiet session _

omit [DecidableEq T] [Husk R] [DecidableEq τ] in
theorem named_quiet (h : step.quiet? = some step') (session : Session τ T R) :
    step'.name?.bind session.quiet.edge? = (step.name?.bind session.edge?).map Edge.quiet := by
  cases step with
  | setLevel level => cases h
  | _ =>
      cases h
      exact edge?_quiet session _

/-- The quiet session reports what the session reports, but for what there is to observe. -/
theorem quiet_step (h : step.quiet? = some step') :
    session.quiet.step step' = ((session.step step).1.quiet, (session.step step).2.quiet) := by
  have hPerform := session.quiet_perform step
  rw [h] at hPerform
  have hBefore := named_quiet h session
  have hSeen : ((step'.name?.bind session.quiet.edge?).map fun edge => edge.received.length) =
      (step.name?.bind session.edge?).map fun edge => edge.received.length := by
    rw [hBefore, Option.map_map]
    rfl
  unfold Session.step Report.quiet
  simp only [hPerform, concerned?_quiet h, hSeen, Option.map_map]
  rfl

/-- What is reported of steps in turn, apart from steps about levels and from what there is to
observe. -/
def observed (session : Session τ T R) (steps : List (Step τ T R)) : List (Report τ T R) :=
  (steps.zip (session.run steps)).filterMap fun p => p.1.quiet?.map fun _ => p.2.quiet

/-- A run of the quiet session is a run of the session with everything to observe left out. -/
theorem quiet_run (session : Session τ T R) (steps : List (Step τ T R)) :
    session.observed steps = session.quiet.run (steps.filterMap Step.quiet?) ∧
      (session.after steps).quiet = session.quiet.after (steps.filterMap Step.quiet?) := by
  induction steps generalizing session with
  | nil => exact ⟨rfl, rfl⟩
  | cons step rest ih =>
      obtain ⟨hReports, hAfter⟩ := ih (session.step step).1
      cases hStep : step.quiet? with
      | none =>
          rw [quiet_step_of_none hStep] at hReports hAfter
          rw [List.filterMap_cons_none hStep]
          refine ⟨?_, hAfter⟩
          rw [← hReports]
          simp only [observed, run, List.zip_cons_cons]
          rw [List.filterMap_cons_none (by rw [hStep]; rfl)]
      | some step' =>
          have hQuiet : session.quiet.step step' =
              ((session.step step).1.quiet, (session.step step).2.quiet) := quiet_step hStep
          rw [List.filterMap_cons_some hStep]
          refine ⟨?_, ?_⟩
          · simp only [observed, run, List.zip_cons_cons]
            rw [List.filterMap_cons_some (by rw [hStep]; rfl)]
            simp only [hQuiet]
            rw [← hReports]
            rfl
          · simp only [after, List.foldl_cons, hQuiet]
            exact hAfter

/-- Two runs that differ only in the levels of the log at each moment, in the sinks of the edges and
in their addresses give the same answers and the same errors, and they leave the same edges and the
same mailboxes. -/
theorem instrumentation_transparent (first second : Session τ T R)
    (hStart : first.quiet = second.quiet) (steps others : List (Step τ T R))
    (hSteps : steps.filterMap Step.quiet? = others.filterMap Step.quiet?) :
    first.observed steps = second.observed others ∧
      (first.after steps).quiet = (second.after others).quiet := by
  obtain ⟨hFirst, hFirstAfter⟩ := first.quiet_run steps
  obtain ⟨hSecond, hSecondAfter⟩ := second.quiet_run others
  constructor
  · rw [hFirst, hSecond, hStart, hSteps]
  · rw [hFirstAfter, hSecondAfter, hStart, hSteps]

end Session

/-- Two destinations, the second of which refuses what it is offered first. -/
def balking : Recorders Nat UInt64 :=
  .create 2 fun dst push => if dst = 1 ∧ push = 1 then .refuse else .take

/-- Records are distributed by parity, each as a message of its own. -/
def byParity (tracing : Tracing) (address : Address) : Connection Unit Nat UInt64 where
  kind := ()
  channel := 3
  address := address
  tracing := tracing
  pact := .recordedExchange 0 id 1 balking

/-- Five records of one time are distributed, and a pipeline is opened in between. -/
def distributed (tracing : Tracing) (address : Address) (level : Level) :
    List (Step Unit Nat UInt64) :=
  [.connect "words" (byParity tracing address),
    .push "words" 0 { time := 5, data := [2, 3, 4] }, .setLevel level,
    .connect "lines" { byParity tracing address with pact := .pipeline 0 },
    .push "words" 0 { time := 5, data := [6, 7] }]

theorem Session.instrumentation_transparent_distributed :
    let lone : Session Unit Nat UInt64 := { host := .lone, world := { fabric := { workers := 1 } } }
    let traced := distributed .memory [1, 2] .debug
    (lone.observed traced).map Report.error = [none, some .refused, none, none] ∧
      (lone.after traced).world.journal.events.size = 4 ∧
      (lone.after traced).world.journal.logger.lines.size = 1 := by
  intro lone traced
  have hErrors : (lone.observed (distributed .off [] .off)).map Report.error =
      [none, some .refused, none, none] := by decide +kernel
  have hSame := (instrumentation_transparent lone lone rfl traced (distributed .off [] .off) rfl).1
  refine ⟨?_, ?_, ?_⟩
  · rw [hSame, hErrors]
  · decide +kernel
  · decide +kernel

end Dataflow
