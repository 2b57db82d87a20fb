import Dataflow.Proofs.Session.Conduit
import Dataflow.Proofs.Session.Reservation

/-! What a failed connection leaves behind. The channel of an exchange is claimed before its
distributor is made, and only then is a capacity of zero noticed. Every other failure leaves nothing
behind; this one leaves the claim, which nobody can use and which its worker cannot make again. -/
namespace Dataflow

variable {τ T R : Type}

namespace Journal

/-- A journal that is set in the same way, with nothing written to it. -/
def blank (journal : Journal) : Journal where
  logger := { level := journal.logger.level, attached := journal.logger.attached }

theorem followedBy_blank {first second : Journal} (h : first.Alike second) :
    second.followedBy first.blank = second := by
  rw [followedBy, blank, h.level, h.attached]
  simp only [Array.append_empty]

end Journal

namespace Session

variable [DecidableEq τ] {session : Session τ T R} {connection : Connection τ T R}

omit [DecidableEq τ] in
/-- Towards any number of peers but none, a distributor lacks nothing but a capacity. -/
theorem distributing_cases (connection : Connection τ T R) (index : UInt32) {peers : Nat}
    (hPeers : 0 < peers) (hash : R → UInt64) (capacity : Nat) (outlet : Outlet T R) :
    (capacity = 0 → distributing connection index peers hash capacity outlet =
      .error (.fanOut .zeroCapacity)) ∧
    (capacity ≠ 0 → ∃ edge, distributing connection index peers hash capacity outlet =
      .ok edge) := by
  have hSenders : Sender.towardsAll connection.channel index (connection.tracing.sink index)
      peers ≠ [] := by
    rw [Sender.towardsAll, ne_eq, List.map_eq_nil_iff, List.range_eq_nil]
    omega
  constructor
  · intro hCapacity
    simp only [distributing, FanOut.create, if_neg hSenders, if_pos hCapacity]
  · intro hCapacity
    simp only [distributing, FanOut.create, if_neg hSenders, if_neg hCapacity]
    exact ⟨_, rfl⟩

/-- Without its claim an exchange is not connected, and nothing happens. -/
theorem connect_of_refused (hHost : session.host = .shared) {worker : Nat} {hash : R → UInt64}
    {capacity : Nat} (hPact : connection.pact = .exchange worker hash capacity)
    {refusal : ClaimError} (hClaim : session.world.fabric.claim connection.channel connection.kind
      worker = .error refusal) :
    ∃ error, error ≠ .fanOut .zeroCapacity ∧
      session.connect connection = (.error error, session.world) := by
  by_cases hWorker : session.hasWorker worker = true
  · refine ⟨.claim refusal, ?_, ?_⟩
    · intro hError
      cases hError
    · simp only [connect, hPact, hWorker, if_true, openExchange, hHost, World.claim, hClaim]
  · refine ⟨.noWorker, ?_, ?_⟩
    · intro hError
      cases hError
    · simp only [connect, hPact, hWorker, if_false, Bool.false_eq_true]

/-- With its claim the worker holds the channel from then on, with an edge or without one. -/
theorem connect_of_granted (hHost : session.host = .shared)
    (hWorkers : 0 < session.world.fabric.workers) {worker : Nat} {hash : R → UInt64}
    {capacity : Nat} (hPact : connection.pact = .exchange worker hash capacity)
    {opened : Fabric τ (Message T R)} (hClaim : session.world.fabric.claim connection.channel
      connection.kind worker = .ok opened) :
    (session.connect connection).2 = ({ session.world with fabric := opened }).log .debug
        (session.index worker) connection.channel
          (exchangeNotice connection.address opened.workers) ∧
      (capacity = 0 → (session.connect connection).1 = .error (.fanOut .zeroCapacity)) ∧
      (capacity ≠ 0 → ∃ edge, (session.connect connection).1 = .ok edge) := by
  have hWorker : session.hasWorker worker = true := by
    simp only [hasWorker, hHost]
    exact decide_eq_true (Fabric.claim_cases hClaim).1
  have hPeers : 0 < opened.workers := by
    rw [Fabric.claim_workers hClaim]
    exact hWorkers
  simp only [connect, hPact, hWorker, if_true, openExchange, hHost, World.claim, hClaim]
  exact ⟨trivial, distributing_cases connection _ hPeers hash capacity _⟩

/-- The claim, and the notice of it in the journal, are all that the attempt has changed. -/
theorem apart_of_granted (hHost : session.host = .shared)
    (hWorkers : 0 < session.world.fabric.workers) {worker : Nat} {hash : R → UInt64}
    {capacity : Nat} (hPact : connection.pact = .exchange worker hash capacity)
    {opened : Fabric τ (Message T R)} (hClaim : session.world.fabric.claim connection.channel
      connection.kind worker = .ok opened) :
    Session.Apart
      { channel := connection.channel, kind := connection.kind, worker,
        before := session.world.journal, after := (session.connect connection).2.journal }
      session { session with world := (session.connect connection).2 } := by
  obtain ⟨hWorld, -, -⟩ := connect_of_granted hHost hWorkers hPact hClaim
  have hAlike : session.world.journal.Alike (session.connect connection).2.journal := by
    rw [hWorld]
    exact session.world.journal.alike_log _ _ _ _
  have hFabric : (session.connect connection).2.fabric = opened := by
    rw [hWorld]
    rfl
  exact
    { host := rfl
      edges := rfl
      world :=
        { fabric := hFabric ▸ Fabric.Reserved.of_claim hClaim
          journal := ⟨session.world.journal.blank, (Journal.followedBy_blank .rfl).symm,
            (Journal.followedBy_blank hAlike).symm⟩ } }

/-- Who holds a channel is refused every further claim of it. -/
theorem connect_again (hHost : session.host = .shared) {channel : UInt32} {kind : τ} {worker : Nat}
    (hHolds : session.world.fabric.Holds channel kind worker)
    (hClaim : connection.claim? = some (channel, kind, worker)) :
    (session.connect connection).1 = .error (.claim .alreadyClaimed) := by
  have hWorker : session.hasWorker worker = true := by
    simp only [hasWorker, hHost]
    exact decide_eq_true hHolds.1
  unfold connect
  unfold Connection.claim? at hClaim
  cases hPact : connection.pact with
  | exchange claimant hash capacity | bareExchange claimant =>
      rw [hPact] at hClaim
      cases hClaim
      simp only [hWorker, if_true, openExchange, hHost, World.claim, hHolds.claim]
  | _ =>
      rw [hPact] at hClaim
      cases hClaim

variable [DecidableEq T] [Husk R]

/-- A connection that fails leaves nothing behind but what it did to the world. -/
theorem step_of_failed {error : ConnectError} (h : (session.connect connection).1 = .error error)
    (name : String) : (session.step (.connect name connection)).1 =
      { session with world := (session.connect connection).2 } := by
  simp only [step, perform]
  generalize session.connect connection = connected at h ⊢
  obtain ⟨made, world⟩ := connected
  cases h
  rfl

omit [DecidableEq τ] [DecidableEq T] [Husk R] in
theorem shared_of_start {workers : Nat} {start : Session τ T R}
    (h : Session.start (some workers) = .ok start) :
    start.host = .shared ∧ 0 < start.world.fabric.workers ∧ start.edges = [] := by
  rw [Session.start] at h
  cases hCreate : (Fabric.create workers : Except FabricError (Fabric τ (Message T R))) with
  | error error =>
      rw [hCreate] at h
      cases h
  | ok fabric =>
      obtain ⟨hWorkers, -, rfl⟩ := Fabric.create_eq hCreate
      rw [hCreate] at h
      cases h
      exact ⟨rfl, hWorkers, rfl⟩

/-- Workers of a session connect an exchange after any history, and fail. Unless the capacity was
zero, nothing has changed. If it was, then with any other capacity the edge would have been made,
but its worker is from now on refused every exchange on the channel, whatever else is done; for all
steps that do not claim the channel for this worker, or first for messages of another kind, it is as
though the connection had not been tried. -/
theorem failed_connect {workers : Nat} {start : Session τ T R}
    (hStart : Session.start (some workers) = .ok start) (history : List (Step τ T R))
    {worker : Nat} {hash : R → UInt64} {capacity : Nat}
    (hPact : connection.pact = .exchange worker hash capacity) {error : ConnectError}
    (hFailed : ((start.after history).connect connection).1 = .error error) (name : String) :
    let before := start.after history
    let after := (before.step (.connect name connection)).1
    (error ≠ .fanOut .zeroCapacity → after = before) ∧
    (error = .fanOut .zeroCapacity → capacity = 0 ∧
      (∀ other, other ≠ 0 → ∃ edge, (before.connect { connection with
        pact := .exchange worker hash other }).1 = .ok edge) ∧
      (∀ (steps : List (Step τ T R)) (retry : Connection τ T R),
        retry.claim? = some (connection.channel, connection.kind, worker) →
          ((after.after steps).connect retry).1 = .error (.claim .alreadyClaimed)) ∧
      ∀ steps : List (Step τ T R), (∀ step ∈ steps, ∀ kind claimant,
        step.claim? = some (connection.channel, kind, claimant) →
          before.world.fabric.Spares connection.channel connection.kind worker kind claimant) →
        after.run steps = before.run steps) := by
  intro before after
  obtain ⟨hHost, hWorkers, hNoEdges⟩ := shared_of_start hStart
  have hSame : SameWorkers before start := start.sameWorkers_after history
  have hGrounded : before.Grounded := by
    refine Grounded.after ?_ history
    intro entry hEntry
    rw [hNoEdges] at hEntry
    cases hEntry
  have hShared : before.host = .shared := hSame.host.trans hHost
  have hHired : 0 < before.world.fabric.workers := by
    rw [hSame.workers]
    exact hWorkers
  cases hClaim : before.world.fabric.claim connection.channel connection.kind worker with
  | error refusal =>
      obtain ⟨error', hError', hConnect⟩ := connect_of_refused hShared hPact hClaim
      have hAfter : after = before := by
        simp only [after, step, perform, hConnect]
      rw [hConnect] at hFailed
      cases hFailed
      exact ⟨fun _ => hAfter, fun hError => absurd hError hError'⟩
  | ok opened =>
      obtain ⟨hWorld, hZero, hMade⟩ := connect_of_granted hShared hHired hPact hClaim
      have hCapacity : capacity = 0 := by
        refine Decidable.byContradiction fun hCapacity => ?_
        obtain ⟨edge, hEdge⟩ := hMade hCapacity
        rw [hEdge] at hFailed
        cases hFailed
      have hError : error = .fanOut .zeroCapacity :=
        Except.error.inj (hFailed.symm.trans (hZero hCapacity))
      have hAfter : after = { before with world := (before.connect connection).2 } :=
        step_of_failed hFailed name
      have hFabric : after.world.fabric = opened := by
        rw [hAfter, hWorld]
        rfl
      refine ⟨fun hOther => absurd hError hOther, fun _ => ⟨hCapacity, ?_, ?_, ?_⟩⟩
      · intro other hOther
        let ample : Connection τ T R := { connection with pact := .exchange worker hash other }
        have hAmple : ample.pact = .exchange worker hash other := rfl
        exact (connect_of_granted hShared hHired hAmple hClaim).2.2 hOther
      · intro steps retry hRetry
        have hLasting : (after.after steps).world.fabric.Holds _ _ worker :=
          Fabric.holds_stable.after steps (hFabric ▸ Fabric.holds_of_claim hClaim)
        have hStill : (after.after steps).host = .shared := by
          rw [(after.sameWorkers_after steps).host, hAfter]
          exact hShared
        exact connect_again hStill hLasting hRetry
      · intro steps hSpares
        have hApart := apart_of_granted hShared hHired hPact hClaim
        rw [← hAfter] at hApart
        exact (hApart.run hGrounded steps hSpares).symm

/-- The exchange of a worker on the only channel. -/
def onlyExchange (worker capacity : Nat) : Connection Unit Nat UInt64 where
  kind := ()
  channel := 0
  address := []
  tracing := .off
  pact := .exchange worker id capacity

def twoWorkers : Session Unit Nat UInt64 where
  host := .shared
  world := { fabric := { workers := 2 } }

/-- Worker 1 of two is connected and sends a record to worker 0. -/
def sentAhead : List (Step Unit Nat UInt64) :=
  [.connect "theirs" (onlyExchange 1 1), .push "theirs" 0 { time := 5, data := [2] }]

/-- Worker 0 then fails to connect. It cannot connect again, the record stays in its mailbox, and
worker 1 goes on as before. -/
theorem failed_connect_sentAhead :
    let before := twoWorkers.after sentAhead
    let after := (before.step (.connect "mine" (onlyExchange 0 0))).1
    let onward : List (Step Unit Nat UInt64) :=
      [.push "theirs" 0 { time := 6, data := [3, 4] }, .pull "theirs"]
    (after.connect (onlyExchange 0 3)).1 = .error (.claim .alreadyClaimed) ∧
      (∃ edge, (before.connect (onlyExchange 0 3)).1 = .ok edge) ∧
      after.world.fabric.box 0 0 ≠ [] ∧ after.run onward = before.run onward := by
  have hStart : Session.start (some 2) = .ok twoWorkers := rfl
  have hFailed : ((twoWorkers.after sentAhead).connect (onlyExchange 0 0)).1 =
      .error (.fanOut .zeroCapacity) := rfl
  obtain ⟨-, hZero⟩ := failed_connect hStart sentAhead rfl hFailed "mine"
  obtain ⟨-, hAmple, hAgain, hOnward⟩ := hZero rfl
  intro before after onward
  refine ⟨hAgain [] (onlyExchange 0 3) rfl, hAmple 3 (by decide), by decide +kernel, ?_⟩
  refine hOnward onward fun step hStep kind claimant hClaim => ?_
  simp only [onward, List.mem_cons, List.not_mem_nil, or_false] at hStep
  rcases hStep with rfl | rfl <;> cases hClaim

end Session

end Dataflow
