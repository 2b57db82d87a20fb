import Dataflow.Proofs.Fabric.Reservation
import Dataflow.Proofs.FanOut.Lockstep
import Dataflow.Proofs.Session.Stable

/-! Sessions that differ in a claim which no edge uses. They hold the same edges and go on alike,
report for report, as long as no step asks for the very thing that is taken. What was written before
may differ as well: a report tells what a step adds to the journal. -/
namespace Dataflow

variable {τ T R M : Type}

namespace Journal

/-- The journal after something was added. It is set as the addition says. -/
def followedBy (past recent : Journal) : Journal where
  logger := { recent.logger with lines := past.logger.lines ++ recent.logger.lines }
  events := past.events ++ recent.events

theorem log_followedBy (past recent : Journal) (level : Level) (worker channel : UInt32)
    (text : Bytes) : (past.followedBy recent).log level worker channel text =
      past.followedBy (recent.log level worker channel text) := by
  by_cases hWrites : (recent.logger.level.enables level && recent.logger.attached) = true
  · simp only [log, followedBy, Log.Logger.log, hWrites, if_true, Array.push_append]
  · simp only [log, followedBy, Log.Logger.log, hWrites, if_false, Bool.false_eq_true]

theorem note_followedBy (past recent : Journal) (event : Event) (sink : Sink) :
    (past.followedBy recent).note event sink = past.followedBy (recent.note event sink) := by
  cases sink with
  | memory => simp only [note, followedBy, Array.push_append]
  | text worker => exact log_followedBy past recent _ _ _ _

/-- What was there before does not count among what is added. -/
theorem events_added (past recent later : Journal) :
    (past.followedBy later).events.toList.drop (past.followedBy recent).events.size =
      later.events.toList.drop recent.events.size := by
  simp only [followedBy, Array.toList_append, Array.size_append]
  exact List.drop_length_add_append ..

/-- What was logged in the past does not show in the lines that are added. -/
theorem lines_added (past recent later : Journal) :
    (past.followedBy later).logger.lines.toList.drop (past.followedBy recent).logger.lines.size =
      later.logger.lines.toList.drop recent.logger.lines.size := by
  simp only [followedBy, Array.toList_append, Array.size_append]
  exact List.drop_length_add_append ..

end Journal

/-- What sets two sessions apart: a claim that only the second has seen, and what has been written
to the journals of the first and of the second before. -/
structure Rift (τ : Type) where
  channel : UInt32
  kind : τ
  worker : Nat
  before : Journal
  after : Journal

variable {rift : Rift τ}

/-- Since then the same was added to both journals, and the fabrics differ in the claim alone. -/
structure World.Apart (rift : Rift τ) (first second : World τ M) : Prop where
  fabric : Fabric.Reserved rift.channel rift.kind rift.worker first.fabric second.fabric
  journal : ∃ recent, first.journal = rift.before.followedBy recent ∧
    second.journal = rift.after.followedBy recent

namespace World.Apart

variable {first second : World τ M}

/-- Worlds that are apart stay so when both log the same. -/
theorem log (h : World.Apart rift first second) (level : Level) (worker channel : UInt32)
    (text : Bytes) :
    World.Apart rift (first.log level worker channel text)
      (second.log level worker channel text) where
  fabric := h.fabric
  journal := by
    obtain ⟨recent, hFirst, hSecond⟩ := h.journal
    refine ⟨recent.log level worker channel text, ?_, ?_⟩
    · rw [World.log, hFirst, Journal.log_followedBy]
    · rw [World.log, hSecond, Journal.log_followedBy]

/-- They stay so when both note the same event. -/
theorem note (h : World.Apart rift first second) (event : Event) (sink : Sink) :
    World.Apart rift (first.note event sink) (second.note event sink) where
  fabric := h.fabric
  journal := by
    obtain ⟨recent, hFirst, hSecond⟩ := h.journal
    refine ⟨recent.note event sink, ?_, ?_⟩
    · rw [World.note, hFirst, Journal.note_followedBy]
    · rw [World.note, hSecond, Journal.note_followedBy]

theorem setLevel (h : World.Apart rift first second) (level : Level) :
    World.Apart rift { first with journal := first.journal.setLevel level }
      { second with journal := second.journal.setLevel level } where
  fabric := h.fabric
  journal := by
    obtain ⟨recent, hFirst, hSecond⟩ := h.journal
    refine ⟨recent.setLevel level, ?_, ?_⟩
    · rw [hFirst]
      rfl
    · rw [hSecond]
      rfl

/-- They stay so when the same box of both is edited. -/
theorem editBox (h : World.Apart rift first second) {channel : UInt32}
    (hOpen : (first.fabric.channel? channel).isSome) (worker : Nat) (edit : List M → List M) :
    World.Apart rift { first with fabric := first.fabric.editBox channel worker edit }
      { second with fabric := second.fabric.editBox channel worker edit } where
  fabric := h.fabric.editBox hOpen worker edit
  journal := h.journal

/-- A claim has the same answer in both worlds unless it wants what is taken in the second. -/
theorem claim [DecidableEq τ] (h : World.Apart rift first second) {channel : UInt32} {kind : τ}
    {claimant : Nat} (hSpares : channel = rift.channel →
      first.fabric.Spares rift.channel rift.kind rift.worker kind claimant) :
    (∃ error, first.claim channel kind claimant = (.error error, first) ∧
      second.claim channel kind claimant = (.error error, second)) ∨
    ∃ peers world world', first.claim channel kind claimant = (.ok peers, world) ∧
      second.claim channel kind claimant = (.ok peers, world') ∧ World.Apart rift world world' := by
  unfold World.claim
  rcases same_verdict (h.fabric.verdict hSpares) with
    ⟨error, hFirst, hSecond⟩ | ⟨opened, opened', hFirst, hSecond⟩
  · rw [hFirst, hSecond]
    exact Or.inl ⟨error, rfl, rfl⟩
  · have hOpened := h.fabric.claim hFirst hSecond hSpares
    rw [hFirst, hSecond]
    refine Or.inr ⟨opened.workers, { first with fabric := opened },
      { second with fabric := opened' }, rfl, ?_, hOpened, h.journal⟩
    dsimp only
    rw [hOpened.workers]

end World.Apart

/-- A channel that has been claimed stays claimed. -/
theorem Fabric.spares_stable [DecidableEq τ] {channel : UInt32} {kind : τ} {worker : Nat}
    (other : τ) (claimant : Nat) : Fabric.Stable (τ := τ) (M := M) fun fabric =>
      fabric.Spares channel kind worker other claimant where
  moved hMoved hSpares :=
    ⟨hSpares.1, fun hKind => hMoved.channel?_isSome (hSpares.2 hKind)⟩

/-- Whoever holds a channel keeps it. -/
theorem Fabric.holds_stable [DecidableEq τ] {channel : UInt32} {kind : τ} {worker : Nat} :
    Fabric.Stable (τ := τ) (M := M) (Fabric.Holds channel kind worker) where
  moved hMoved hHolds := hHolds.moved hMoved

namespace Outlet

/-- One outlet in two worlds that are set apart. -/
structure Apart (rift : Rift τ) (first second : Outlet T R × World τ (Message T R)) : Prop where
  outlet : first.1 = second.1
  world : World.Apart rift first.2 second.2
  grounded : first.1.Grounded first.2.fabric

namespace Apart

variable {first second : Outlet T R × World τ (Message T R)}

/-- An outlet answers the same on both sides of the rift. -/
theorem offer (h : Outlet.Apart rift first second) (dst : Nat) (slot : Option (Message T R)) :
    Offered.Agree (Outlet.Apart rift) (Outlet.offer dst slot first)
      (Outlet.offer dst slot second) := by
  obtain ⟨outlet, world⟩ := first
  obtain ⟨outlet', world'⟩ := second
  obtain ⟨hOutlet, hWorld, hGrounded⟩ := h
  cases hOutlet
  cases outlet with
  | queue waiting => exact ⟨rfl, rfl, rfl, hWorld, trivial⟩
  | mailboxes channel owner =>
      cases slot with
      | none => exact ⟨rfl, rfl, rfl, hWorld, hGrounded⟩
      | some message =>
          exact ⟨rfl, rfl, rfl, hWorld.editBox hGrounded dst _,
            Fabric.channel?_isSome_editBox hGrounded channel dst _⟩
  | recorders bank =>
      simp only [Outlet.offer]
      cases (bank.answer dst slot).1 <;> exact ⟨rfl, rfl, rfl, hWorld, trivial⟩

theorem lockstep (rift : Rift τ) :
    (medium (τ := τ) (T := T) (R := R)).Lockstep (Outlet.Apart rift) medium where
  note sink event _ _ h := ⟨h.outlet, h.world.note event sink, h.grounded⟩
  offer dst slot _ _ h := h.offer dst slot

/-- The same message is taken on both sides. -/
theorem take (h : Outlet.Apart rift first second) :
    (Outlet.take first).1 = (Outlet.take second).1 ∧
      Outlet.Apart rift (Outlet.take first).2 (Outlet.take second).2 := by
  obtain ⟨outlet, world⟩ := first
  obtain ⟨outlet', world'⟩ := second
  obtain ⟨hOutlet, hWorld, hGrounded⟩ := h
  cases hOutlet
  cases outlet with
  | queue waiting => exact ⟨rfl, rfl, hWorld, trivial⟩
  | recorders bank => exact ⟨rfl, rfl, hWorld, trivial⟩
  | mailboxes channel owner =>
      refine ⟨?_, rfl, hWorld.editBox hGrounded owner _,
        Fabric.channel?_isSome_editBox hGrounded channel owner _⟩
      exact congrArg List.head? (hWorld.fabric.box channel owner).symm

theorem waiting (h : Outlet.Apart rift first second) :
    Outlet.waiting first = Outlet.waiting second := by
  obtain ⟨outlet, world⟩ := first
  obtain ⟨outlet', world'⟩ := second
  obtain ⟨hOutlet, hWorld, hGrounded⟩ := h
  cases hOutlet
  cases outlet with
  | queue waiting => rfl
  | recorders bank => rfl
  | mailboxes channel owner =>
      exact congrArg List.length (hWorld.fabric.box channel owner).symm

end Apart

/-- There are as many destinations on both sides. -/
theorem peers_apart {world world' : World τ (Message T R)} (h : World.Apart rift world world')
    (outlet : Outlet T R) : peers (outlet, world) = peers (outlet, world') := by
  cases outlet with
  | queue waiting => rfl
  | recorders bank => rfl
  | mailboxes channel owner => exact h.fabric.workers.symm

end Outlet

namespace Edge

/-- One edge in two worlds that are set apart. -/
structure Apart (rift : Rift τ) (first second : Edge τ T R × World τ (Message T R)) : Prop where
  edge : first.1 = second.1
  outlet : Outlet.Apart rift (first.1.outlet, first.2) (second.1.outlet, second.2)

namespace Apart

variable {first second : Edge τ T R × World τ (Message T R)}

/-- An edge takes a slot in the same way on both sides. -/
theorem push [DecidableEq T] [Husk R] (h : Edge.Apart rift first second) (dst : Nat)
    (slot : Option (Message T R)) :
    Offered.Agree (Edge.Apart rift) (Edge.push dst slot first) (Edge.push dst slot second) := by
  obtain ⟨edge, world⟩ := first
  obtain ⟨edge', world'⟩ := second
  obtain ⟨hEdge, hOutlet⟩ := h
  cases hEdge
  have hPeers := Outlet.peers_apart hOutlet.world edge.outlet
  simp only [Edge.push]
  cases edge.front with
  | bare =>
      obtain ⟨hFault, hSlot, hState⟩ := hOutlet.offer dst slot
      simp only [← hPeers]
      split
      · refine ⟨hFault, hSlot, ?_, hState⟩
        exact congrArg (fun outlet => { edge with front := .bare, outlet }) hState.outlet
      · exact ⟨rfl, rfl, rfl, hOutlet⟩
  | sender sender =>
      obtain ⟨hFault, hSlot, hSender, hState⟩ :=
        (Outlet.Apart.lockstep rift).send 0 slot sender hOutlet
      refine ⟨hFault, hSlot, ?_, hState⟩
      simp only [hSender, hState.outlet]
  | fanOut fan =>
      obtain ⟨hFault, hSlot, hFan, hState⟩ :=
        (Outlet.Apart.lockstep rift).distribute slot fan hOutlet
      refine ⟨hFault, hSlot, ?_, hState⟩
      simp only [hFan, hState.outlet]

/-- The same message is pulled on both sides. -/
theorem pull (h : Edge.Apart rift first second) :
    (Edge.pull first).1 = (Edge.pull second).1 ∧
      Edge.Apart rift (Edge.pull first).2 (Edge.pull second).2 := by
  obtain ⟨edge, world⟩ := first
  obtain ⟨edge', world'⟩ := second
  obtain ⟨hEdge, hOutlet⟩ := h
  cases hEdge
  obtain ⟨hMessage, hTaken⟩ := hOutlet.take
  simp only [Edge.pull]
  generalize Outlet.take (edge.outlet, world) = taken at hMessage hTaken ⊢
  generalize Outlet.take (edge.outlet, world') = taken' at hMessage hTaken ⊢
  obtain ⟨message, outlet, after⟩ := taken
  obtain ⟨message', outlet', after'⟩ := taken'
  obtain ⟨hSame, hWorld, hGrounded⟩ := hTaken
  cases hMessage
  cases hSame
  cases message with
  | none => exact ⟨rfl, rfl, rfl, hWorld, hGrounded⟩
  | some message =>
      refine ⟨rfl, rfl, rfl, ?_, ?_⟩
      · simp only [Edge.report]
        cases edge.receiver with
        | none => exact hWorld
        | some receiver =>
            dsimp only
            cases receiver.sink with
            | none => exact hWorld
            | some sink => exact hWorld.note _ sink
      · simp only [Edge.report_fabric]
        exact hGrounded

/-- The same messages are pulled on both sides. -/
theorem pullUpTo (limit : Nat) (h : Edge.Apart rift first second) :
    (Edge.pullUpTo limit first).1 = (Edge.pullUpTo limit second).1 ∧
      Edge.Apart rift (Edge.pullUpTo limit first).2 (Edge.pullUpTo limit second).2 := by
  induction limit generalizing first second with
  | zero => exact ⟨rfl, h⟩
  | succ limit ih =>
      obtain ⟨hMessage, hPulled⟩ := h.pull
      simp only [Edge.pullUpTo]
      generalize Edge.pull first = pulled at hMessage hPulled ⊢
      generalize Edge.pull second = pulled' at hMessage hPulled ⊢
      obtain ⟨message, state⟩ := pulled
      obtain ⟨message', state'⟩ := pulled'
      cases hMessage
      cases message with
      | none => exact ⟨rfl, hPulled⟩
      | some message =>
          obtain ⟨hMessages, hRest⟩ := ih hPulled
          exact ⟨congrArg (message :: ·) hMessages, hRest⟩

/-- The same messages are drained on both sides. -/
theorem drain (h : Edge.Apart rift first second) :
    (Edge.drain first).1 = (Edge.drain second).1 ∧
      Edge.Apart rift (Edge.drain first).2 (Edge.drain second).2 := by
  have hWaiting := h.outlet.waiting
  rw [Edge.drain, Edge.drain, hWaiting]
  exact h.pullUpTo _

end Apart

end Edge

/-- What a connection claims: a channel, for messages of this kind, in the name of a worker. -/
def Connection.claim? (connection : Connection τ T R) : Option (UInt32 × τ × Nat) :=
  match connection.pact with
  | .exchange worker _ _ | .bareExchange worker =>
    some (connection.channel, connection.kind, worker)
  | .pipeline _ | .barePipeline _ | .loopback _ _ _ | .recordedExchange _ _ _ _
  | .recorded _ _ _ => none

/-- What a step claims. -/
def Step.claim? : Step τ T R → Option (UInt32 × τ × Nat)
  | connect _ connection => connection.claim?
  | setLevel _ | push _ _ _ | send _ _ _ | done _ _ | pushBatch _ _ _ _ | pull _ | recv _ | drain _
  | info _ | buffered _ _ | drop _ => none

namespace Session

/-- The sessions have the same edges, in worlds that are set apart. -/
structure Apart (rift : Rift τ) (first second : Session τ T R) : Prop where
  host : first.host = second.host
  edges : first.edges = second.edges
  world : World.Apart rift first.world second.world

namespace Apart

variable {first second : Session τ T R}

theorem edge? (h : Session.Apart rift first second) (name : String) :
    first.edge? name = second.edge? name := by
  rw [Session.edge?, Session.edge?, h.edges]

theorem sameWorkers (h : Session.Apart rift first second) : SameWorkers first second where
  host := h.host
  workers := h.world.fabric.workers.symm

/-- An edge of both sessions, in their worlds. -/
theorem edge (h : Session.Apart rift first second) (hGrounded : first.Grounded) {name : String}
    {edge : Edge τ T R} (hEdge : first.edge? name = some edge) :
    Edge.Apart rift (edge, first.world) (edge, second.world) :=
  ⟨rfl, rfl, h.world, hGrounded.edge hEdge⟩

theorem setEdge (h : Session.Apart rift first second) (name : String) (edge : Edge τ T R)
    {world world' : World τ (Message T R)} (hWorld : World.Apart rift world world') :
    Session.Apart rift (({ first with world }).setEdge name edge)
      (({ second with world := world' }).setEdge name edge) where
  host := h.host
  edges := by
    simp only [Session.setEdge, h.edges]
  world := hWorld

/-- Receiving by name gives the same on both sides. -/
theorem receive {α : Type} (h : Session.Apart rift first second) (hGrounded : first.Grounded)
    (name : String)
    {use : Edge τ T R × World τ (Message T R) → α × Edge τ T R × World τ (Message T R)}
    (hUse : ∀ state state', Edge.Apart rift state state' →
      (use state).1 = (use state').1 ∧ Edge.Apart rift (use state).2 (use state').2) :
    (first.receive name use).2 = (second.receive name use).2 ∧
      Session.Apart rift (first.receive name use).1 (second.receive name use).1 := by
  have hEdge := h.edge? name
  unfold Session.receive
  cases hFirst : first.edge? name with
  | none =>
      rw [← hEdge, hFirst]
      exact ⟨rfl, h⟩
  | some edge =>
      rw [← hEdge, hFirst]
      obtain ⟨hAnswer, hState⟩ := hUse _ _ (h.edge hGrounded hFirst)
      dsimp only
      rw [hAnswer, hState.edge]
      exact ⟨rfl, h.setEdge name _ hState.outlet.world⟩

theorem offer [DecidableEq T] [Husk R] (h : Session.Apart rift first second)
    (hGrounded : first.Grounded) (name : String) (dst : Nat) (slot : Option (Message T R)) :
    (first.offer name dst slot).2 = (second.offer name dst slot).2 ∧
      Session.Apart rift (first.offer name dst slot).1 (second.offer name dst slot).1 := by
  have hEdge := h.edge? name
  unfold Session.offer
  cases hFirst : first.edge? name with
  | none =>
      rw [← hEdge, hFirst]
      exact ⟨rfl, h⟩
  | some edge =>
      rw [← hEdge, hFirst]
      obtain ⟨hFault, hSlot, hState⟩ := (h.edge hGrounded hFirst).push dst slot
      dsimp only
      rw [hFault, hSlot, hState.edge]
      exact ⟨rfl, h.setEdge name _ hState.outlet.world⟩

variable [DecidableEq τ]

/-- Opening a channel has the same outcome unless it wants what is taken in the second. -/
theorem openExchange (h : Session.Apart rift first second) (worker : Nat)
    (connection : Connection τ T R) (hSpares : connection.channel = rift.channel →
      first.world.fabric.Spares rift.channel rift.kind rift.worker connection.kind worker) :
    ∃ opened world world', first.openExchange worker connection = (opened, world) ∧
      second.openExchange worker connection = (opened, world') ∧
        World.Apart rift world world' := by
  have hIndex := h.sameWorkers.index worker
  unfold Session.openExchange
  rw [← h.host]
  cases first.host with
  | lone => exact ⟨_, _, _, rfl, rfl, h.world.log _ _ _ _⟩
  | shared =>
      rcases h.world.claim hSpares with
        ⟨error, hFirst, hSecond⟩ | ⟨peers, world, world', hFirst, hSecond, hWorld⟩
      · simp only [hFirst, hSecond]
        exact ⟨_, _, _, rfl, rfl, h.world⟩
      · simp only [hFirst, hSecond, ← hIndex]
        exact ⟨_, _, _, rfl, rfl, hWorld.log _ _ _ _⟩

/-- Connecting has the same outcome unless it wants what is taken in the second session. -/
theorem connect (h : Session.Apart rift first second) (connection : Connection τ T R)
    (hSpares : ∀ other claimant, connection.claim? = some (rift.channel, other, claimant) →
      first.world.fabric.Spares rift.channel rift.kind rift.worker other claimant) :
    ∃ made world world', first.connect connection = (made, world) ∧
      second.connect connection = (made, world') ∧ World.Apart rift world world' := by
  have hOpening (worker : Nat)
      (hClaim : connection.claim? = some (connection.channel, connection.kind, worker)) :=
    h.openExchange worker connection fun hChannel =>
      hSpares connection.kind worker (hChannel ▸ hClaim)
  have hWorker := h.sameWorkers.hasWorker
  have hIndex := h.sameWorkers.index
  unfold Connection.claim? at hOpening
  unfold Session.connect
  cases hPact : connection.pact with
  | pipeline worker =>
      simp only [← hWorker, ← hIndex, Session.openQueue]
      split
      · exact ⟨_, _, _, rfl, rfl, h.world.log _ _ _ _⟩
      · exact ⟨_, _, _, rfl, rfl, h.world⟩
  | barePipeline worker =>
      simp only [← hWorker, ← hIndex, Session.openQueue]
      split
      · exact ⟨_, _, _, rfl, rfl, h.world.log _ _ _ _⟩
      · exact ⟨_, _, _, rfl, rfl, h.world⟩
  | exchange worker hash capacity =>
      rw [hPact] at hOpening
      obtain ⟨opened, world, world', hFirst, hSecond, hWorld⟩ := hOpening worker rfl
      simp only [← hWorker, ← hIndex, hFirst, hSecond]
      split
      · cases opened with
        | error error => exact ⟨_, _, _, rfl, rfl, hWorld⟩
        | ok outlet =>
            simp only [Outlet.peers_apart hWorld]
            exact ⟨_, _, _, rfl, rfl, hWorld⟩
      · exact ⟨_, _, _, rfl, rfl, h.world⟩
  | bareExchange worker =>
      rw [hPact] at hOpening
      obtain ⟨opened, world, world', hFirst, hSecond, hWorld⟩ := hOpening worker rfl
      simp only [← hWorker, hFirst, hSecond]
      split
      · cases opened <;> exact ⟨_, _, _, rfl, rfl, hWorld⟩
      · exact ⟨_, _, _, rfl, rfl, h.world⟩
  | loopback source target index => exact ⟨_, _, _, rfl, rfl, h.world⟩
  | recordedExchange index hash capacity bank => exact ⟨_, _, _, rfl, rfl, h.world⟩
  | recorded index target bank => exact ⟨_, _, _, rfl, rfl, h.world⟩

variable [DecidableEq T] [Husk R]

/-- A step has the same answer unless it claims what is taken in the second session, and the
sessions stay apart by that alone. -/
theorem perform (h : Session.Apart rift first second) (hGrounded : first.Grounded)
    (step : Step τ T R)
    (hSpares : ∀ other claimant, step.claim? = some (rift.channel, other, claimant) →
      first.world.fabric.Spares rift.channel rift.kind rift.worker other claimant) :
    (first.perform step).2 = (second.perform step).2 ∧
      Session.Apart rift (first.perform step).1 (second.perform step).1 := by
  cases step with
  | setLevel level => exact ⟨rfl, h.host, h.edges, h.world.setLevel level⟩
  | connect name connection =>
      obtain ⟨made, world, world', hFirst, hSecond, hWorld⟩ := h.connect connection hSpares
      simp only [Session.perform, hFirst, hSecond]
      cases made with
      | error error => exact ⟨rfl, h.host, h.edges, hWorld⟩
      | ok edge => exact ⟨rfl, h.setEdge name edge hWorld⟩
  | push name dst message =>
      obtain ⟨hAnswer, hAfter⟩ := h.offer hGrounded name dst (some message)
      simp only [Session.perform, hAnswer]
      exact ⟨trivial, hAfter⟩
  | send name dst message =>
      obtain ⟨hAnswer, hAfter⟩ := h.offer hGrounded name dst (some message)
      simp only [Session.perform, hAnswer]
      exact ⟨trivial, hAfter⟩
  | done name dst =>
      obtain ⟨hAnswer, hAfter⟩ := h.offer hGrounded name dst none
      simp only [Session.perform, hAnswer]
      exact ⟨trivial, hAfter⟩
  | pushBatch name dst time data =>
      obtain ⟨hAnswer, hAfter⟩ := h.offer hGrounded name dst (some { time, data })
      simp only [Session.perform_pushBatch, hAnswer]
      cases (second.offer name dst (some { time, data })).2.1 <;> exact ⟨rfl, hAfter⟩
  | pull name =>
      obtain ⟨hAnswer, hAfter⟩ := h.receive hGrounded name fun _ _ => Edge.Apart.pull
      simp only [Session.perform, hAnswer]
      exact ⟨trivial, hAfter⟩
  | recv name =>
      obtain ⟨hAnswer, hAfter⟩ := h.receive hGrounded name fun _ _ => Edge.Apart.pull
      simp only [Session.perform, hAnswer]
      exact ⟨trivial, hAfter⟩
  | drain name =>
      obtain ⟨hAnswer, hAfter⟩ := h.receive hGrounded name fun _ _ => Edge.Apart.drain
      simp only [Session.perform, hAnswer]
      exact ⟨trivial, hAfter⟩
  | info name =>
      simp only [Session.perform, h.edge?]
      exact ⟨trivial, h⟩
  | buffered name dst =>
      simp only [Session.perform, h.edge?]
      cases second.edge? name with
      | none => exact ⟨rfl, h⟩
      | some edge =>
          dsimp only
          cases edge.buffered? dst <;> exact ⟨rfl, h⟩
  | drop name =>
      simp only [Session.perform, h.edge?, h.edges]
      exact ⟨trivial, h.host, rfl, h.world⟩

/-- A step that spares what is taken is reported alike. -/
theorem step (h : Session.Apart rift first second) (hGrounded : first.Grounded) (step : Step τ T R)
    (hSpares : ∀ other claimant, step.claim? = some (rift.channel, other, claimant) →
      first.world.fabric.Spares rift.channel rift.kind rift.worker other claimant) :
    (first.step step).2 = (second.step step).2 ∧
      Session.Apart rift (first.step step).1 (second.step step).1 := by
  obtain ⟨hAnswer, hAfter⟩ := h.perform hGrounded step hSpares
  obtain ⟨recent, hRecent, hRecent'⟩ := h.world.journal
  obtain ⟨later, hLater, hLater'⟩ := hAfter.world.journal
  refine ⟨?_, hAfter⟩
  have hEdge : first.edge? = second.edge? := funext h.edge?
  have hConcerned (error : Option StepError) : (first.perform step).1.concerned? step error =
      (second.perform step).1.concerned? step error := by
    have hEdge' : (first.perform step).1.edge? = (second.perform step).1.edge? :=
      funext hAfter.edge?
    unfold Session.concerned?
    split
    · rfl
    · rw [hEdge']
  simp only [Session.step, hAnswer, hEdge, hConcerned, hRecent, hRecent', hLater, hLater',
    Journal.events_added, Journal.lines_added]

/-- Steps that spare what is taken are reported alike. -/
theorem run (h : Session.Apart rift first second) (hGrounded : first.Grounded)
    (steps : List (Step τ T R)) (hSpares : ∀ step ∈ steps, ∀ other claimant,
      step.claim? = some (rift.channel, other, claimant) →
        first.world.fabric.Spares rift.channel rift.kind rift.worker other claimant) :
    first.run steps = second.run steps := by
  induction steps generalizing first second with
  | nil => rfl
  | cons step steps ih =>
      obtain ⟨hStep, hRest⟩ := List.forall_mem_cons.mp hSpares
      obtain ⟨hReport, hAfter⟩ := h.step hGrounded step hStep
      have hSteps := ih hAfter (hGrounded.perform step) fun later hLater other claimant hClaim =>
        (Fabric.spares_stable other claimant).perform step
          (hRest later hLater other claimant hClaim)
      simp only [Session.run]
      rw [hReport]
      exact congrArg _ hSteps

end Apart

end Session

end Dataflow
