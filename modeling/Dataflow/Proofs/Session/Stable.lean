import Dataflow.Proofs.Fabric.Mailbox
import Dataflow.Proofs.FanOut.Moves
import Dataflow.Proofs.Session.Pipeline

/-! What steps leave true of a fabric. A step edits mailboxes and claims channels, so whatever
survives every edit and every claim survives every step. An edge keeps its channel, so the mailboxes
that edges use always exist. -/
namespace Dataflow

variable {τ T R : Type}

namespace Session

/-- What decides whether a worker can hold an edge, and under which number. -/
structure SameWorkers (first second : Session τ T R) : Prop where
  host : first.host = second.host
  workers : first.world.fabric.workers = second.world.fabric.workers

theorem SameWorkers.hasWorker {first second : Session τ T R} (h : SameWorkers first second)
    (worker : Nat) : first.hasWorker worker = second.hasWorker worker := by
  rw [Session.hasWorker, Session.hasWorker, h.host, h.workers]

theorem SameWorkers.index {first second : Session τ T R} (h : SameWorkers first second)
    (worker : Nat) : first.index worker = second.index worker := by
  rw [Session.index, Session.index, h.host]

end Session

/-- A received message is noted, or nothing happens. -/
theorem Edge.report_cases (edge : Edge τ T R) (message : Message T R)
    (world : World τ (Message T R)) : edge.report message world = world ∨
      ∃ event sink, edge.report message world = world.note event sink := by
  unfold report
  cases edge.receiver with
  | none => exact Or.inl rfl
  | some receiver =>
      dsimp only
      cases receiver.sink with
      | none => exact Or.inl rfl
      | some sink => exact Or.inr ⟨_, sink, rfl⟩

/-- What is noted, offered and taken at an outlet leaves it true. -/
structure Outlet.Kept (Q : Outlet T R × World τ (Message T R) → Prop) : Prop where
  note : ∀ sink event state, Q state → Q (Outlet.medium.note sink event state)
  offer : ∀ dst slot state, Q state → Q (Outlet.offer dst slot state).state
  take : ∀ state, Q state → Q (Outlet.take state).2

namespace Outlet.Kept

variable {Q : Outlet T R × World τ (Message T R) → Prop}

theorem noteTo (h : Outlet.Kept Q) (sink : Option Sink) (event : Event)
    {state : Outlet T R × World τ (Message T R)} (hQ : Q state) :
    Q (Outlet.medium.noteTo sink event state) := by
  cases sink with
  | none => exact hQ
  | some sink => exact h.note sink event state hQ

/-- A sender keeps what its outlet keeps. -/
theorem send (h : Outlet.Kept Q) (dst : Nat) (slot : Option (Message T R)) (sender : Sender)
    {state : Outlet T R × World τ (Message T R)} (hQ : Q state) :
    Q (Sender.push Outlet.medium dst slot (sender, state)).state.2 := by
  cases slot with
  | none => exact h.offer dst none state hQ
  | some message => exact h.offer dst _ _ (h.noteTo sender.sink _ hQ)

/-- So does a distributor. -/
theorem distribute [DecidableEq T] [Husk R] (h : Outlet.Kept Q) (slot : Option (Message T R))
    (fan : FanOut T R) {state : Outlet T R × World τ (Message T R)} (hQ : Q state) :
    Q (FanOut.push Outlet.medium slot (fan, state)).state.2 :=
  (FanOut.kept_of_surroundings h.note h.offer).push slot fan state hQ

/-- An edge keeps what its outlet keeps, whatever its front. -/
theorem push [DecidableEq T] [Husk R] (h : Outlet.Kept Q) (dst : Nat)
    (slot : Option (Message T R)) (state : Edge τ T R × World τ (Message T R))
    (hQ : Q (state.1.outlet, state.2)) :
    Q ((Edge.push dst slot state).state.1.outlet, (Edge.push dst slot state).state.2) := by
  obtain ⟨edge, world⟩ := state
  simp only [Edge.push]
  split
  · split
    · exact h.offer dst slot _ hQ
    · exact hQ
  · exact h.send 0 slot _ hQ
  · exact h.distribute slot _ hQ

/-- Pulling keeps it too. -/
theorem pull (h : Outlet.Kept Q) (state : Edge τ T R × World τ (Message T R))
    (hQ : Q (state.1.outlet, state.2)) :
    Q ((Edge.pull state).2.1.outlet, (Edge.pull state).2.2) := by
  obtain ⟨edge, world⟩ := state
  have hTaken := h.take _ hQ
  simp only [Edge.pull]
  generalize Outlet.take (edge.outlet, world) = taken at hTaken ⊢
  obtain ⟨message, outlet, world'⟩ := taken
  cases message with
  | none => exact hTaken
  | some message =>
      rcases Edge.report_cases { edge with outlet } message world' with hNot | ⟨event, sink, hNoted⟩
      · simp only [hNot]
        exact hTaken
      · simp only [hNoted]
        exact h.note sink event _ hTaken

theorem pullUpTo (h : Outlet.Kept Q) (limit : Nat) (state : Edge τ T R × World τ (Message T R))
    (hQ : Q (state.1.outlet, state.2)) :
    Q ((Edge.pullUpTo limit state).2.1.outlet, (Edge.pullUpTo limit state).2.2) := by
  induction limit generalizing state with
  | zero => exact hQ
  | succ limit ih =>
      have hPull := h.pull state hQ
      simp only [Edge.pullUpTo]
      generalize Edge.pull state = pulled at hPull ⊢
      obtain ⟨message, state'⟩ := pulled
      cases message with
      | none => exact hPull
      | some message => exact ih state' hPull

/-- Draining keeps it too. -/
theorem drain (h : Outlet.Kept Q) (state : Edge τ T R × World τ (Message T R))
    (hQ : Q (state.1.outlet, state.2)) :
    Q ((Edge.drain state).2.1.outlet, (Edge.drain state).2.2) :=
  h.pullUpTo _ state hQ

end Outlet.Kept

variable [DecidableEq τ]

/-- What is true of the fabric stays true, whatever is delivered, taken or claimed. -/
structure Fabric.Stable {M : Type} (P : Fabric τ M → Prop) : Prop where
  moved : ∀ {fabric after : Fabric τ M}, fabric.Moved after → P fabric → P after

theorem Fabric.stable_workers {M : Type} (workers : Nat) :
    Fabric.Stable fun fabric : Fabric τ M => fabric.workers = workers where
  moved hMoved hWorkers := hMoved.workers.trans hWorkers

namespace Fabric.Stable

variable {P : Fabric τ (Message T R) → Prop}

/-- What is stable of a fabric is kept by every outlet. -/
theorem kept (h : Fabric.Stable P) :
    Outlet.Kept fun state : Outlet T R × World τ (Message T R) => P state.2.fabric where
  note _ _ _ hP := hP
  offer dst slot state hP := by
    obtain ⟨outlet, world⟩ := state
    cases outlet with
    | queue waiting => exact hP
    | mailboxes channel owner =>
        cases slot with
        | none => exact hP
        | some message => exact h.moved (.edit channel dst _) hP
    | recorders bank =>
        simp only [Outlet.offer]
        cases (bank.answer dst slot).1 <;> exact hP
  take state hP := by
    obtain ⟨outlet, world⟩ := state
    cases outlet with
    | queue waiting => exact hP
    | mailboxes channel owner => exact h.moved (.edit channel owner _) hP
    | recorders bank => exact hP

/-- A property that claims do not break survives the opening of a channel. -/
theorem openExchange (h : Fabric.Stable P) (worker : Nat) (connection : Connection τ T R)
    {session : Session τ T R} (hP : P session.world.fabric) :
    P (session.openExchange worker connection).2.fabric := by
  unfold Session.openExchange
  cases session.host with
  | lone => exact hP
  | shared =>
      simp only [World.claim]
      cases hClaim : session.world.fabric.claim connection.channel connection.kind worker with
      | error error => exact hP
      | ok opened => exact h.moved (.claim hClaim) hP

/-- It survives every connection, failed ones included. -/
theorem connect (h : Fabric.Stable P) (connection : Connection τ T R) {session : Session τ T R}
    (hP : P session.world.fabric) : P (session.connect connection).2.fabric := by
  unfold Session.connect
  cases connection.pact with
  | pipeline worker =>
      dsimp only
      split <;> exact hP
  | barePipeline worker =>
      dsimp only
      split <;> exact hP
  | exchange worker hash capacity =>
      have hOpen := h.openExchange worker connection hP
      dsimp only
      split
      · generalize session.openExchange worker connection = opened at hOpen ⊢
        obtain ⟨made, world⟩ := opened
        cases made <;> exact hOpen
      · exact hP
  | bareExchange worker =>
      have hOpen := h.openExchange worker connection hP
      dsimp only
      split
      · generalize session.openExchange worker connection = opened at hOpen ⊢
        obtain ⟨made, world⟩ := opened
        cases made <;> exact hOpen
      · exact hP
  | loopback source target index => exact hP
  | recordedExchange index hash capacity bank => exact hP
  | recorded index target bank => exact hP

theorem receive (h : Fabric.Stable P) {α : Type} (name : String)
    {use : Edge τ T R × World τ (Message T R) → α × Edge τ T R × World τ (Message T R)}
    (hUse : ∀ {Q : Outlet T R × World τ (Message T R) → Prop}, Outlet.Kept Q → ∀ state,
      Q (state.1.outlet, state.2) → Q ((use state).2.1.outlet, (use state).2.2))
    {session : Session τ T R} (hP : P session.world.fabric) :
    P (session.receive name use).1.world.fabric := by
  unfold Session.receive
  cases session.edge? name with
  | none => exact hP
  | some edge => exact hUse h.kept (edge, session.world) hP

variable [DecidableEq T] [Husk R]

theorem offer (h : Fabric.Stable P) (name : String) (dst : Nat) (slot : Option (Message T R))
    {session : Session τ T R} (hP : P session.world.fabric) :
    P (session.offer name dst slot).1.world.fabric := by
  unfold Session.offer
  cases session.edge? name with
  | none => exact hP
  | some edge => exact h.kept.push dst slot (edge, session.world) hP

/-- It survives every step. -/
theorem perform (h : Fabric.Stable P) (step : Step τ T R) {session : Session τ T R}
    (hP : P session.world.fabric) : P (session.perform step).1.world.fabric := by
  cases step with
  | setLevel level => exact hP
  | connect name connection =>
      have hConnect := h.connect connection hP
      simp only [Session.perform]
      generalize session.connect connection = connected at hConnect ⊢
      obtain ⟨made, world⟩ := connected
      cases made <;> exact hConnect
  | push name dst message => exact h.offer name dst (some message) hP
  | send name dst message => exact h.offer name dst (some message) hP
  | done name dst => exact h.offer name dst none hP
  | pushBatch name dst time data =>
      have hOffer := h.offer name dst (some { time, data }) hP
      simp only [Session.perform_pushBatch]
      split <;> exact hOffer
  | pull name => exact h.receive name Outlet.Kept.pull hP
  | recv name => exact h.receive name Outlet.Kept.pull hP
  | drain name => exact h.receive name Outlet.Kept.drain hP
  | info name => exact hP
  | buffered name dst =>
      simp only [Session.perform]
      split
      · exact hP
      · split <;> exact hP
  | drop name => exact hP

/-- What every edit and every claim leaves true of the fabric stays true in a session. -/
theorem after (h : Fabric.Stable P) (steps : List (Step τ T R)) {session : Session τ T R}
    (hP : P session.world.fabric) : P (session.after steps).world.fabric := by
  induction steps generalizing session with
  | nil => exact hP
  | cons step steps ih => exact ih (h.perform step hP)

end Fabric.Stable

namespace Session

variable [DecidableEq T] [Husk R]

/-- No step hires or dismisses workers. -/
theorem sameWorkers_perform (session : Session τ T R) (step : Step τ T R) :
    SameWorkers (session.perform step).1 session where
  host := session.host_perform step
  workers := (Fabric.stable_workers _).perform step rfl

theorem sameWorkers_after (session : Session τ T R) (steps : List (Step τ T R)) :
    SameWorkers (session.after steps) session where
  host := by
    induction steps generalizing session with
    | nil => rfl
    | cons step steps ih => exact (ih _).trans (session.host_perform step)
  workers := (Fabric.stable_workers _).after steps rfl

end Session

/-- The channel of the outlet has been claimed, so its mailboxes exist. -/
def Outlet.Grounded (fabric : Fabric τ (Message T R)) : Outlet T R → Prop
  | .mailboxes channel _ => (fabric.channel? channel).isSome
  | .queue _ | .recorders _ => True

omit [DecidableEq τ] in
/-- An outlet stays what it is, and so does the channel that it uses. -/
theorem Outlet.kept_grounded :
    Outlet.Kept fun state : Outlet T R × World τ (Message T R) =>
      state.1.Grounded state.2.fabric where
  note _ _ _ hGrounded := hGrounded
  offer dst slot state hGrounded := by
    obtain ⟨outlet, world⟩ := state
    cases outlet with
    | queue waiting => trivial
    | mailboxes channel owner =>
        cases slot with
        | none => exact hGrounded
        | some message => exact Fabric.channel?_isSome_editBox hGrounded channel dst _
    | recorders bank =>
        simp only [Outlet.offer]
        cases (bank.answer dst slot).1 <;> trivial
  take state hGrounded := by
    obtain ⟨outlet, world⟩ := state
    cases outlet with
    | queue waiting => trivial
    | mailboxes channel owner => exact Fabric.channel?_isSome_editBox hGrounded channel owner _
    | recorders bank => trivial

/-- Mailboxes are never taken away. -/
theorem Outlet.grounded_stable (outlet : Outlet T R) :
    Fabric.Stable (τ := τ) (M := Message T R) fun fabric => outlet.Grounded fabric where
  moved hMoved hGrounded := by
    cases outlet with
    | queue waiting => trivial
    | recorders bank => trivial
    | mailboxes channel owner => exact hMoved.channel?_isSome hGrounded

namespace Session

def Grounded (session : Session τ T R) : Prop :=
  ∀ entry ∈ session.edges, entry.2.outlet.Grounded session.world.fabric

omit [DecidableEq τ] in
/-- Every edge of a grounded session has its channel. -/
theorem Grounded.edge {session : Session τ T R} (h : session.Grounded) {name : String}
    {edge : Edge τ T R} (hEdge : session.edge? name = some edge) :
    edge.outlet.Grounded session.world.fabric := by
  obtain ⟨before, behind, hEdges, -⟩ := List.lookup_eq_some_iff.mp hEdge
  have hMem : (name, edge) ∈ session.edges := by
    rw [hEdges]
    exact List.mem_append_right _ List.mem_cons_self
  exact h _ hMem

omit [DecidableEq τ] in
theorem Grounded.setEdge {session : Session τ T R} (h : session.Grounded) (name : String)
    {edge : Edge τ T R} {world : World τ (Message T R)}
    (hEdge : edge.outlet.Grounded world.fabric)
    (hKept : ∀ outlet : Outlet T R, outlet.Grounded session.world.fabric →
      outlet.Grounded world.fabric) :
    (({ session with world }).setEdge name edge).Grounded := by
  intro entry hEntry
  rcases List.mem_cons.mp hEntry with hNew | hOld
  · rw [hNew]
    exact hEdge
  · exact hKept _ (h entry (List.mem_filter.mp hOld).1)

theorem Grounded.receive {session : Session τ T R} (h : session.Grounded) {α : Type}
    (name : String)
    {use : Edge τ T R × World τ (Message T R) → α × Edge τ T R × World τ (Message T R)}
    (hUse : ∀ {Q : Outlet T R × World τ (Message T R) → Prop}, Outlet.Kept Q → ∀ state,
      Q (state.1.outlet, state.2) → Q ((use state).2.1.outlet, (use state).2.2)) :
    (session.receive name use).1.Grounded := by
  unfold Session.receive
  cases hEdge : session.edge? name with
  | none => exact h
  | some edge =>
      exact h.setEdge name (hUse Outlet.kept_grounded (edge, session.world) (h.edge hEdge))
        fun outlet => hUse outlet.grounded_stable.kept (edge, session.world)

/-- A channel that was opened is there. -/
theorem grounded_openExchange {session : Session τ T R} {worker : Nat}
    {connection : Connection τ T R} {outlet : Outlet T R} {world : World τ (Message T R)}
    (h : session.openExchange worker connection = (.ok outlet, world)) :
    outlet.Grounded world.fabric := by
  unfold openExchange at h
  cases hHost : session.host with
  | lone =>
      rw [hHost] at h
      cases h
      trivial
  | shared =>
      rw [hHost] at h
      simp only [World.claim] at h
      cases hClaim : session.world.fabric.claim connection.channel connection.kind worker with
      | error error =>
          rw [hClaim] at h
          cases h
      | ok opened =>
          rw [hClaim] at h
          cases h
          obtain ⟨found, hFound, -⟩ := Fabric.claimed_of_claim hClaim
          exact Option.isSome_iff_exists.mpr ⟨found, hFound⟩

omit [DecidableEq τ] in
theorem outlet_of_distributing {connection : Connection τ T R} {index : UInt32} {peers : Nat}
    {hash : R → UInt64} {capacity : Nat} {outlet : Outlet T R} {edge : Edge τ T R}
    (h : distributing connection index peers hash capacity outlet = .ok edge) :
    edge.outlet = outlet := by
  simp only [distributing] at h
  split at h
  · cases h
    rfl
  · cases h

/-- A new edge has a private outlet or that of a channel that was opened for it. -/
theorem grounded_connect {session : Session τ T R} {connection : Connection τ T R}
    {edge : Edge τ T R} {world : World τ (Message T R)}
    (h : session.connect connection = (.ok edge, world)) : edge.outlet.Grounded world.fabric := by
  unfold connect at h
  cases hPact : connection.pact with
  | pipeline worker =>
      simp only [hPact] at h
      split at h <;> cases h
      trivial
  | barePipeline worker =>
      simp only [hPact] at h
      split at h <;> cases h
      trivial
  | exchange worker hash capacity =>
      simp only [hPact] at h
      split at h
      · cases hOpened : session.openExchange worker connection with
        | mk opened world' =>
            rw [hOpened] at h
            cases opened with
            | error error => cases h
            | ok outlet =>
                obtain ⟨hMade, hWorld⟩ := Prod.mk.inj h
                rw [outlet_of_distributing hMade, ← hWorld]
                exact grounded_openExchange hOpened
      · cases h
  | bareExchange worker =>
      simp only [hPact] at h
      split at h
      · cases hOpened : session.openExchange worker connection with
        | mk opened world' =>
            rw [hOpened] at h
            cases opened <;> cases h
            exact grounded_openExchange hOpened
      · cases h
  | loopback source target index =>
      simp only [hPact] at h
      cases h
      trivial
  | recordedExchange index hash capacity bank =>
      simp only [hPact] at h
      rw [outlet_of_distributing (Prod.mk.inj h).1]
      trivial
  | recorded index target bank =>
      simp only [hPact] at h
      cases h
      trivial

variable [DecidableEq T] [Husk R]

theorem Grounded.offer {session : Session τ T R} (h : session.Grounded) (name : String) (dst : Nat)
    (slot : Option (Message T R)) : (session.offer name dst slot).1.Grounded := by
  unfold Session.offer
  cases hEdge : session.edge? name with
  | none => exact h
  | some edge =>
      exact h.setEdge name
        (Outlet.kept_grounded.push dst slot (edge, session.world) (h.edge hEdge))
        fun outlet => outlet.grounded_stable.kept.push dst slot (edge, session.world)

/-- No step takes the ground from under an edge. -/
theorem Grounded.perform {session : Session τ T R} (h : session.Grounded) (step : Step τ T R) :
    (session.perform step).1.Grounded := by
  cases step with
  | setLevel level => exact h
  | connect name connection =>
      have hKept (outlet : Outlet T R) (hOutlet : outlet.Grounded session.world.fabric) :
          outlet.Grounded (session.connect connection).2.fabric :=
        outlet.grounded_stable.connect connection hOutlet
      simp only [Session.perform]
      cases hConnect : session.connect connection with
      | mk made world =>
          rw [hConnect] at hKept
          cases made with
          | error error => exact fun entry hEntry => hKept _ (h entry hEntry)
          | ok edge => exact h.setEdge name (grounded_connect hConnect) hKept
  | push name dst message => exact h.offer name dst (some message)
  | send name dst message => exact h.offer name dst (some message)
  | done name dst => exact h.offer name dst none
  | pushBatch name dst time data =>
      have hOffer := h.offer name dst (some { time, data })
      simp only [Session.perform_pushBatch]
      split <;> exact hOffer
  | pull name => exact h.receive name Outlet.Kept.pull
  | recv name => exact h.receive name Outlet.Kept.pull
  | drain name => exact h.receive name Outlet.Kept.drain
  | info name => exact h
  | buffered name dst =>
      simp only [Session.perform]
      split
      · exact h
      · split <;> exact h
  | drop name => exact fun entry hEntry => h entry (List.mem_filter.mp hEntry).1

/-- The edges of a session use mailboxes that exist, whatever the steps were. -/
theorem Grounded.after {session : Session τ T R} (h : session.Grounded)
    (steps : List (Step τ T R)) : (session.after steps).Grounded := by
  induction steps generalizing session with
  | nil => exact h
  | cons step steps ih => exact ih (h.perform step)

end Session

end Dataflow
