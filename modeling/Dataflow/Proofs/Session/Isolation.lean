import Dataflow.Proofs.Session.Quiet
import Dataflow.Proofs.Session.Stable

/-! Pipelines are kept apart, whatever their channels. What a pipeline hands out depends only on the
steps that name it, and these steps do not show in what happens to other edges: they leave the
fabric alone, so no later claim is decided otherwise. A run is compared with the two runs it splits
into. -/
namespace Dataflow

variable {τ T R : Type}

/-- The edge, if there is one, is a pipeline: one sender and a private queue. -/
def Edge.Secluded (edge : Option (Edge τ T R)) : Prop :=
  ∀ found, edge = some found →
    ∃ sender waiting, found.front = .sender sender ∧ found.outlet = .queue waiting

/-- The pipeline that a connection makes for the worker of this number. -/
def Connection.pipe (connection : Connection τ T R) (index : UInt32) : Edge τ T R :=
  let channel := connection.channel
  let sink := connection.tracing.sink index
  { kind := connection.kind
    front := .sender { channel, source := index, target := index, sink }
    outlet := .queue []
    receiver := some { channel, index, sink } }

/-- The step connects nothing but pipelines under the name. -/
def Step.Pipes (name : String) : Step τ T R → Prop
  | connect other connection => other = name → ∃ worker, connection.pact = .pipeline worker
  | _ => True

namespace Session

/-- Only the edge of this name has changed, and the journal. -/
structure Turned (name : String) (edge : Option (Edge τ T R)) (before after : Session τ T R) :
    Prop where
  host : after.host = before.host
  fabric : after.world.fabric = before.world.fabric
  edge : after.edge? name = edge
  others : after.edges.filter (·.1 ≠ name) = before.edges.filter (·.1 ≠ name)

theorem filter_setEdge (session : Session τ T R) (name : String) (edge : Edge τ T R) :
    (session.setEdge name edge).edges.filter (·.1 ≠ name) =
      session.edges.filter (·.1 ≠ name) := by
  rw [setEdge, List.filter_cons_of_neg (by simp), List.filter_filter]
  simp

/-- Putting an edge under its name turns nothing else. -/
theorem turned_setEdge {session : Session τ T R} {world : World τ (Message T R)}
    (hFabric : world.fabric = session.world.fabric) (name : String) (edge : Edge τ T R) :
    Turned name (some edge) session (({ session with world }).setEdge name edge) where
  host := rfl
  fabric := hFabric
  edge := edge?_setEdge_self _ name edge
  others := filter_setEdge _ name edge

theorem turned_drop (session : Session τ T R) (name : String) :
    Turned name none session { session with edges := session.edges.filter (·.1 ≠ name) } where
  host := rfl
  fabric := rfl
  edge := by
    rw [edge?, List.lookup_eq_none_iff]
    intro entry hEntry
    have hName : entry.1 ≠ name := of_decide_eq_true (List.mem_filter.mp hEntry).2
    exact bne_iff_ne.mpr (Ne.symm hName)
  others := by
    rw [List.filter_filter]
    simp

variable {name : String} {edge : Option (Edge τ T R)}

/-- What is done comes out the same in every session with this edge under the name and with these
workers, and it changes nothing else. -/
def Local (name : String) (edge : Option (Edge τ T R)) (reference : Session τ T R) {α : Type}
    (act : Session τ T R → Session τ T R × α) : Prop :=
  ∃ result edge', Edge.Secluded edge' ∧ ∀ session, SameWorkers session reference →
    session.edge? name = edge →
      (act session).2 = result ∧ Turned name edge' session (act session).1

/-- An answer may be read off what came out. -/
theorem Local.finish {reference : Session τ T R} {α β : Type}
    {act : Session τ T R → Session τ T R × α} {finished : Session τ T R → Session τ T R × β}
    (h : Local name edge reference act) (finish : α → β)
    (hFinish : ∀ session, finished session = ((act session).1, finish (act session).2)) :
    Local name edge reference finished := by
  obtain ⟨result, edge', hEdge', hAct⟩ := h
  refine ⟨finish result, edge', hEdge', fun session hSame hEdge => ?_⟩
  obtain ⟨hResult, hTurned⟩ := hAct session hSame hEdge
  rw [hFinish, hResult]
  exact ⟨rfl, hTurned⟩

/-- What only looks at the edge is local. -/
theorem Local.look {α : Type} (h : Edge.Secluded edge) (reference : Session τ T R)
    (answer : Option (Edge τ T R) → α) :
    Local name edge reference fun session => (session, answer (session.edge? name)) :=
  ⟨answer edge, edge, h, fun _ _ hEdge => ⟨congrArg answer hEdge, rfl, rfl, hEdge, rfl⟩⟩

/-- What the receiving half of a pipeline does depends on the pipeline alone. -/
theorem Local.receive {α : Type}
    {use : Edge τ T R × World τ (Message T R) → α × Edge τ T R × World τ (Message T R)}
    (hUse : ∀ (edge : Edge τ T R) (waiting : List (Message T R)), edge.outlet = .queue waiting →
      ∃ value rest, ∀ world, ∃ world', world'.fabric = world.fabric ∧
        use (edge, world) = (value, { edge with outlet := .queue rest }, world'))
    (h : Edge.Secluded edge) (reference : Session τ T R) :
    Local name edge reference fun session => session.receive name use := by
  cases edge with
  | none =>
      refine ⟨.error .noEdge, none, h, fun session _ hEdge => ?_⟩
      dsimp only
      rw [Session.receive, hEdge]
      exact ⟨rfl, rfl, rfl, hEdge, rfl⟩
  | some edge =>
      obtain ⟨sender, waiting, hFront, hOutlet⟩ := h edge rfl
      obtain ⟨value, rest, hUsed⟩ := hUse edge waiting hOutlet
      refine ⟨.ok value, some { edge with outlet := .queue rest }, ?_, fun session _ hEdge => ?_⟩
      · intro found hFound
        rw [← Option.some.inj hFound]
        exact ⟨sender, rest, hFront, rfl⟩
      · obtain ⟨world', hFabric, hUse⟩ := hUsed session.world
        dsimp only
        rw [Session.receive, hEdge]
        dsimp only
        rw [hUse]
        exact ⟨rfl, turned_setEdge hFabric name _⟩

/-- A pull from a secluded edge is a local matter. -/
theorem Local.pull (h : Edge.Secluded edge) (reference : Session τ T R) :
    Local name edge reference fun session => session.receive name Edge.pull :=
  .receive (fun _ waiting hOutlet =>
    ⟨waiting.head?, waiting.tail, fun world => Edge.pull_queue hOutlet world⟩) h reference

/-- So is a drain. -/
theorem Local.drain (h : Edge.Secluded edge) (reference : Session τ T R) :
    Local name edge reference fun session => session.receive name Edge.drain :=
  .receive (fun _ waiting hOutlet =>
    ⟨waiting, [], fun world => Edge.drain_queue hOutlet world⟩) h reference

variable [DecidableEq T] [Husk R]

/-- So does what its sending half does. -/
theorem Local.offer (h : Edge.Secluded edge) (reference : Session τ T R) (dst : Nat)
    (slot : Option (Message T R)) :
    Local name edge reference fun session => session.offer name dst slot := by
  cases edge with
  | none =>
      refine ⟨(some .noEdge, slot), none, h, fun session _ hEdge => ?_⟩
      dsimp only
      rw [Session.offer, hEdge]
      exact ⟨rfl, rfl, rfl, hEdge, rfl⟩
  | some edge =>
      obtain ⟨sender, waiting, hFront, hOutlet⟩ := h edge rfl
      refine ⟨(none, none), some { edge with
        front := .sender { sender with
          counter := sender.counter + UInt64.ofNat slot.toList.length }
        outlet := .queue (waiting ++ slot.toList.map sender.stamp) }, ?_,
        fun session _ hEdge => ?_⟩
      · intro found hFound
        rw [← Option.some.inj hFound]
        exact ⟨_, _, rfl, rfl⟩
      · obtain ⟨world', hFabric, hPush⟩ := Edge.push_queue hFront hOutlet dst slot session.world
        dsimp only
        rw [Session.offer, hEdge]
        dsimp only
        rw [hPush]
        exact ⟨rfl, turned_setEdge hFabric name _⟩

variable [DecidableEq τ]

/-- Whether a pipeline can be connected depends on the workers alone. -/
theorem Local.connect (h : Edge.Secluded edge) (reference : Session τ T R)
    {connection : Connection τ T R} {worker : Nat} (hPact : connection.pact = .pipeline worker) :
    Local name edge reference fun session => session.perform (.connect name connection) := by
  cases hWorker : reference.hasWorker worker with
  | false =>
      refine ⟨(.nothing, some (.connect .noWorker)), edge, h, fun session hSame hEdge => ?_⟩
      simp only [perform, Session.connect, hPact, hSame.hasWorker, hWorker]
      exact ⟨rfl, rfl, rfl, hEdge, rfl⟩
  | true =>
      refine ⟨(.nothing, none), some (connection.pipe (reference.index worker)), ?_,
        fun session hSame hEdge => ?_⟩
      · intro found hFound
        rw [← Option.some.inj hFound]
        exact ⟨_, _, rfl, rfl⟩
      · have hFabric : (session.openQueue worker connection).2.fabric =
            session.world.fabric := rfl
        simp only [perform, Session.connect, hPact, hSame.hasWorker, hWorker, hSame.index, if_true]
        exact ⟨trivial, turned_setEdge hFabric name _⟩

/-- Every step on a pipeline is local. -/
theorem perform_local (h : Edge.Secluded edge) {step : Step τ T R} (hName : step.name? = some name)
    (hStep : step.Pipes name) (reference : Session τ T R) :
    Local name edge reference fun session => session.perform step := by
  cases step with
  | setLevel level => cases hName
  | connect other connection =>
      cases hName
      obtain ⟨worker, hPact⟩ := hStep rfl
      exact .connect h reference hPact
  | push other dst message =>
      cases hName
      exact (Local.offer h reference dst (some message)).finish (fun p => (.slot p.2, p.1))
        fun _ => rfl
  | send other dst message =>
      cases hName
      exact (Local.offer h reference dst (some message)).finish (fun p => (.nothing, p.1))
        fun _ => rfl
  | done other dst =>
      cases hName
      exact (Local.offer h reference dst none).finish (fun p => (.nothing, p.1)) fun _ => rfl
  | pushBatch other dst time data =>
      cases hName
      refine (Local.offer h reference dst (some { time, data })).finish
        (fun p => (if p.1 = none then .buffer [] else .nothing, p.1)) fun session => ?_
      simp only [perform_pushBatch]
      split
      · simp [*]
      · simp [*]
  | pull other =>
      cases hName
      exact (Local.pull h reference).finish (answering · .slot) fun _ => rfl
  | recv other =>
      cases hName
      exact (Local.pull h reference).finish (answering · .message) fun _ => rfl
  | drain other =>
      cases hName
      exact (Local.drain h reference).finish (answering · .messages) fun _ => rfl
  | info other =>
      cases hName
      exact (Local.look h reference Option.isNone).finish
        (fun missing => (.nothing, if missing then some .noEdge else none)) fun _ => rfl
  | buffered other dst =>
      cases hName
      refine (Local.look h reference id).finish
        (fun found => found.elim (.nothing, some .noEdge) fun edge =>
          (edge.buffered? dst).elim (.nothing, some .outOfRange) fun n => (.count n, none))
        fun session => ?_
      simp only [perform, id]
      cases session.edge? name with
      | none => rfl
      | some found =>
          dsimp only [Option.elim_some]
          cases found.buffered? dst <;> rfl
  | drop other =>
      cases hName
      refine ⟨(.nothing, if edge.isNone then some .noEdge else none), none, ?_,
        fun session _ hEdge => ?_⟩
      · intro found hFound
        cases hFound
      · simp only [perform, hEdge]
        exact ⟨trivial, turned_drop session name⟩

def without (name : String) (session : Session τ T R) : Session τ T R :=
  { session with edges := session.edges.filter (·.1 ≠ name) }

omit [DecidableEq T] [Husk R] [DecidableEq τ] in
/-- Without one edge the others are as before. -/
theorem edge?_without {other : String} (h : other ≠ name) (session : Session τ T R) :
    (session.without name).edge? other = session.edge? other :=
  lookup_filter_of_ne h session.edges

omit [DecidableEq T] [Husk R] [DecidableEq τ] in
/-- An edge may be put under a name before or after another is left out. -/
theorem without_setEdge {other : String} (h : other ≠ name) (session : Session τ T R)
    (edge : Edge τ T R) :
    (session.setEdge other edge).without name = (session.without name).setEdge other edge := by
  simp only [without, setEdge]
  rw [List.filter_cons_of_pos (by simpa using h), List.filter_filter, List.filter_filter]
  simp only [Bool.and_comm]

omit [DecidableEq T] [Husk R] [DecidableEq τ] in
theorem receive_without {α : Type} {other : String} (h : other ≠ name) (session : Session τ T R)
    (use : Edge τ T R × World τ (Message T R) → α × Edge τ T R × World τ (Message T R)) :
    (session.without name).receive other use =
      ((session.receive other use).1.without name, (session.receive other use).2) := by
  unfold receive
  rw [edge?_without h]
  cases session.edge? other with
  | none => rfl
  | some edge =>
      dsimp only
      rw [without_setEdge h]
      rfl

omit [DecidableEq τ] in
theorem offer_without {other : String} (h : other ≠ name) (session : Session τ T R) (dst : Nat)
    (slot : Option (Message T R)) :
    (session.without name).offer other dst slot =
      ((session.offer other dst slot).1.without name, (session.offer other dst slot).2) := by
  unfold offer
  rw [edge?_without h]
  cases session.edge? other with
  | none => rfl
  | some edge =>
      dsimp only
      rw [without_setEdge h]
      rfl

/-- A step that does not name an edge does not miss it. -/
theorem perform_without {step : Step τ T R} (h : step.name? ≠ some name) (session : Session τ T R) :
    (session.without name).perform step =
      ((session.perform step).1.without name, (session.perform step).2) := by
  have hNe {other : String} (hOther : step.name? = some other) : other ≠ name := by
    intro hSame
    rw [hSame] at hOther
    exact h hOther
  cases step with
  | setLevel level => rfl
  | connect other connection =>
      have hConnect : (session.without name).connect connection = session.connect connection := rfl
      simp only [perform, hConnect]
      split
      · rw [without_setEdge (hNe rfl)]
        rfl
      · rfl
  | push other dst message => simp only [perform, offer_without (hNe rfl)]
  | send other dst message => simp only [perform, offer_without (hNe rfl)]
  | done other dst => simp only [perform, offer_without (hNe rfl)]
  | pushBatch other dst time data =>
      simp only [perform_pushBatch, offer_without (hNe rfl)]
      obtain ⟨after, error, slot⟩ := session.offer other dst (some { time, data })
      cases error <;> rfl
  | pull other => simp only [perform, receive_without (hNe rfl)]
  | recv other => simp only [perform, receive_without (hNe rfl)]
  | drain other => simp only [perform, receive_without (hNe rfl)]
  | info other => simp only [perform, edge?_without (hNe rfl)]
  | buffered other dst =>
      simp only [perform, edge?_without (hNe rfl)]
      cases session.edge? other with
      | none => rfl
      | some edge =>
          dsimp only
          cases edge.buffered? dst <;> rfl
  | drop other =>
      simp only [perform, edge?_without (hNe rfl)]
      simp only [without, List.filter_filter, Bool.and_comm]

/-- Sessions that differ in what there is to observe give the same answers. -/
theorem perform_of_quiet {first second : Session τ T R} (h : first.quiet = second.quiet)
    (step : Step τ T R) :
    (first.perform step).2 = (second.perform step).2 ∧
      (first.perform step).1.quiet = (second.perform step).1.quiet := by
  have hFirst := first.quiet_perform step
  have hSecond := second.quiet_perform step
  cases hStep : step.quiet? with
  | none =>
      rw [hStep] at hFirst hSecond
      refine ⟨?_, hFirst.trans (h.trans hSecond.symm)⟩
      cases step with
      | setLevel level => rfl
      | _ => cases hStep
  | some step' =>
      rw [hStep, h] at hFirst
      rw [hStep] at hSecond
      obtain ⟨hSession, hAnswer⟩ := Prod.mk.inj (hFirst.symm.trans hSecond)
      exact ⟨hAnswer, hSession⟩

/-- A step with the answer to it and its error, if there is one. -/
structure Entry (τ T R : Type) where
  step : Step τ T R
  answer : Answer T R
  error : Option StepError

def record : Session τ T R → List (Step τ T R) → List (Entry τ T R)
  | _, [] => []
  | session, step :: steps =>
    let (after, report) := session.step step
    { step, answer := report.answer, error := report.error } :: record after steps

omit [DecidableEq T] [Husk R] [DecidableEq τ] in
theorem Turned.quiet_without {before after : Session τ T R} (h : Turned name edge before after) :
    (after.without name).quiet = (before.without name).quiet := by
  simp only [without, quiet, World.quiet, h.host, h.fabric, h.others]

theorem record_cons (session : Session τ T R) (step : Step τ T R) (steps : List (Step τ T R)) :
    session.record (step :: steps) =
      { step, answer := (session.perform step).2.1, error := (session.perform step).2.2 } ::
        (session.perform step).1.record steps :=
  rfl

/-- The steps on a pipeline have the results that they have on their own. -/
theorem record_own {first second : Session τ T R} (hSame : SameWorkers first second)
    (hEdge : first.edge? name = second.edge? name) (hSecluded : Edge.Secluded (second.edge? name))
    {steps : List (Step τ T R)} (hSteps : ∀ step ∈ steps, step.Pipes name) :
    (first.record steps).filter (·.step.name? = some name) =
      second.record (steps.filter (·.name? = some name)) := by
  induction steps generalizing first second with
  | nil => rfl
  | cons step steps ih =>
      obtain ⟨hStep, hRest⟩ := List.forall_mem_cons.mp hSteps
      rw [record_cons]
      by_cases hName : step.name? = some name
      · obtain ⟨result, edge', hSecluded', hResult⟩ := perform_local hSecluded hName hStep second
        obtain ⟨hFirst, hFirstAfter⟩ := hResult first hSame hEdge
        obtain ⟨hSecond, hSecondAfter⟩ := hResult second ⟨rfl, rfl⟩ rfl
        have hSame' : SameWorkers (first.perform step).1 (second.perform step).1 :=
          ⟨hFirstAfter.host.trans (hSame.host.trans hSecondAfter.host.symm), by
            rw [hFirstAfter.fabric, hSecondAfter.fabric, hSame.workers]⟩
        have hTail := ih hSame' (hFirstAfter.edge.trans hSecondAfter.edge.symm)
          (hSecondAfter.edge ▸ hSecluded') hRest
        rw [List.filter_cons_of_pos (by simpa using hName),
          List.filter_cons_of_pos (by simpa using hName), record_cons, hFirst, hSecond, hTail]
      · have hHired := first.sameWorkers_perform step
        have hSame' : SameWorkers (first.perform step).1 second :=
          ⟨hHired.host.trans hSame.host, hHired.workers.trans hSame.workers⟩
        rw [List.filter_cons_of_neg (by simpa using hName),
          List.filter_cons_of_neg (by simpa using hName)]
        exact ih hSame' ((edge?_perform_of_ne hName first).trans hEdge) hSecluded hRest

/-- The other steps have the results that they have when nothing is done with the pipeline. -/
theorem record_others {first second : Session τ T R}
    (hQuiet : (first.without name).quiet = (second.without name).quiet)
    (hSecluded : Edge.Secluded (first.edge? name)) {steps : List (Step τ T R)}
    (hSteps : ∀ step ∈ steps, step.Pipes name) :
    (first.record steps).filter (·.step.name? ≠ some name) =
      second.record (steps.filter (·.name? ≠ some name)) := by
  induction steps generalizing first second with
  | nil => rfl
  | cons step steps ih =>
      obtain ⟨hStep, hRest⟩ := List.forall_mem_cons.mp hSteps
      rw [record_cons]
      by_cases hName : step.name? = some name
      · obtain ⟨result, edge', hSecluded', hResult⟩ := perform_local hSecluded hName hStep first
        obtain ⟨-, hAfter⟩ := hResult first ⟨rfl, rfl⟩ rfl
        rw [List.filter_cons_of_neg (by simpa using hName),
          List.filter_cons_of_neg (by simpa using hName)]
        exact ih (hAfter.quiet_without.trans hQuiet) (hAfter.edge ▸ hSecluded') hRest
      · obtain ⟨hResult, hAfter⟩ := perform_of_quiet hQuiet step
        rw [perform_without hName, perform_without hName] at hResult hAfter
        have hTail := ih hAfter (edge?_perform_of_ne hName first ▸ hSecluded) hRest
        rw [List.filter_cons_of_pos (by simpa using hName),
          List.filter_cons_of_pos (by simpa using hName), record_cons, hTail]
        simp only at hResult
        rw [hResult]

/-- Steps on a pipeline leave the fabric, with all its channels and mailboxes, as it is. -/
theorem fabric_after_own {session : Session τ T R} (hSecluded : Edge.Secluded (session.edge? name))
    {steps : List (Step τ T R)} (hSteps : ∀ step ∈ steps, step.Pipes name)
    (hNames : ∀ step ∈ steps, step.name? = some name) :
    (session.after steps).world.fabric = session.world.fabric := by
  induction steps generalizing session with
  | nil => rfl
  | cons step steps ih =>
      obtain ⟨hStep, hRest⟩ := List.forall_mem_cons.mp hSteps
      obtain ⟨hName, hRestNames⟩ := List.forall_mem_cons.mp hNames
      obtain ⟨result, edge', hSecluded', hResult⟩ := perform_local hSecluded hName hStep session
      obtain ⟨-, hAfter⟩ := hResult session ⟨rfl, rfl⟩ rfl
      exact (ih (hAfter.edge ▸ hSecluded') hRest hRestNames).trans hAfter.fabric

end Session

end Dataflow
