import Dataflow.Proofs.Network.Chronicle

/-! One edge, act by act. A call asks at most one question of the world, and asks it first; what
follows is straight. The history of an edge, together with what its call is still bound to do, is
always a chronicle. -/
namespace Dataflow

variable {τ T R E : Type}

namespace Agent

/-- All that one act can do to the edge and to the fabric, if the edge is on this channel. -/
inductive Acted [DecidableEq τ] (channel : UInt32) (worker : Nat) (before : Agent τ T R E)
    (world : World τ (Message T R)) (after : Agent τ T R E) (world' : World τ (Message T R)) :
    Prop where
  | strode (h : Strode worker before world after world')
  | claim (kind : τ) (hClaim : world.fabric.claim channel kind worker = .ok world'.fabric)
      (hPerformed : after.performed = before.performed) (hTaken : after.taken = before.taken)
  | take (hInForce : after.inForce = before.inForce)
      (hPerformed : after.performed = before.performed)
      (hTaken : after.taken = before.taken ++ (world.take channel worker).1.toList)
      (hWorld : world' = (world.take channel worker).2)

variable {worker : Nat} {agent : Agent τ T R E} [DecidableEq τ]

/-- An act performs at most one effect, and memory keeps exactly the events of what is performed. -/
theorem act_remembered (agent : Agent τ T R E) (worker : Nat) (world : World τ (Message T R)) :
    ∃ fresh : Option (Effect (Message T R)),
      (agent.act worker world).1.performed = agent.performed ++ fresh.toList ∧
        (agent.act worker world).2.journal.events.toList =
          world.journal.events.toList ++ remembered fresh.toList := by
  have hNothing : ∃ fresh : Option (Effect (Message T R)),
      agent.performed = agent.performed ++ fresh.toList ∧
        world.journal.events.toList =
          world.journal.events.toList ++ remembered fresh.toList :=
    ⟨none, (List.append_nil _).symm, (List.append_nil _).symm⟩
  cases hTask : agent.task with
  | none =>
      rw [act_of_none hTask]
      exact hNothing
  | some task =>
      rw [act_of_some hTask]
      cases task with
      | perform effect next => exact ⟨some effect, rfl, world.perform_events worker effect⟩
      | claim channel kind next =>
          simp only [World.act, World.claim]
          cases world.fabric.claim channel kind worker with
          | error error => exact hNothing
          | ok fabric => exact hNothing
      | _ => exact hNothing

end Agent

namespace Exchange

open Network

/-- What the worker's next act will be about. -/
inductive Phase (channel : UInt32) (worker : Nat) (agent : Agent τ T R (Exchange T R)) : Prop where
  | straight (h : agent.Straight)
  | claiming (kind : τ) (hash : R → UInt64) (config : Config) (address : Address)
      (h : agent.task = some (.emptyHanded (Exchange.connect
        { index := worker, config, sink := some .memory } channel kind address hash)))
  | taking (exchange : Exchange T R) (hHeld : agent.held = some exchange)
      (h : agent.task = some exchange.pulling)

/-- The end of one worker is in order. -/
structure Sound (workers : Nat) (channel : UInt32) (worker : Nat)
    (agent : Agent τ T R (Exchange T R)) : Prop where
  phase : Phase channel worker agent
  chronicle : Chronicle workers channel worker agent.effects agent.taken
  addressed : ∀ exchange, agent.inForce = some exchange →
    exchange.Addressed workers channel worker
  /-- Before it is connected it can do no more than write to the log. -/
  blank : agent.held = none →
    ∀ effect ∈ agent.effects, ∃ level text, effect = .log level channel text

namespace Sound

variable {workers : Nat} {channel : UInt32} {worker : Nat}
  {agent : Agent τ T R (Exchange T R)}

theorem start : Sound workers channel worker ({} : Agent τ T R (Exchange T R)) where
  phase := .straight (Agent.straight_of_idle rfl)
  chronicle := .nil
  addressed _ hExchange := absurd hExchange.symm (Option.some_ne_none _)
  blank _ _ hMem := absurd hMem List.not_mem_nil

/-- A worker that has something to deliver is connected. -/
theorem held_of_deliver (h : Sound workers channel worker agent) {c : UInt32} {target : Nat}
    {message : Message T R} (hMem : .deliver c target message ∈ agent.effects) :
    agent.held ≠ none := by
  intro hHeld
  obtain ⟨level, text, hLog⟩ := h.blank hHeld _ hMem
  cases hLog

theorem onward {after : Agent τ T R (Exchange T R)} (h : Sound workers channel worker agent)
    (hOnward : Agent.Onward agent after) (phase : Phase channel worker after) :
    Sound workers channel worker after where
  phase := phase
  chronicle := by
    rw [hOnward.effects, hOnward.taken]
    exact h.chronicle
  addressed := by
    rw [hOnward.inForce]
    exact h.addressed
  blank hHeld := by
    rw [hOnward.effects]
    exact h.blank (hOnward.held hHeld)

/-- Entering a push. -/
theorem enter_push [DecidableEq T] [Husk R] (h : Sound workers channel worker agent)
    (hIdle : agent.task = none) {exchange : Exchange T R} (hHeld : agent.held = some exchange)
    (slot : Option (Message T R)) :
    Sound workers channel worker
      (agent.enter (some (.emptyHanded (exchange.push slot))) [slot]) := by
  have hInForce : agent.inForce = some exchange := by
    rw [Agent.inForce_of_idle hIdle, hHeld]
  have hChronicle := h.chronicle
  rw [Agent.effects_of_idle hIdle, Agent.taken, Agent.inHand_of_idle hIdle] at hChronicle
  obtain ⟨hAddressed, hPushed⟩ := (h.addressed exchange hInForce).push hChronicle slot
  have hOutcome := exchange.outcome?_push (τ := τ) slot
  rw [Agent.enter_of_idle hIdle]
  refine ⟨.straight fun task hPush => ?_, ?_, fun after hAfter => ?_,
    fun hNone => absurd (hHeld.symm.trans hNone) (Option.some_ne_none _)⟩
  · rw [← Option.some.inj hPush]
    exact exchange.straight_push slot
  · rw [Agent.effects, Option.elim_some, effects_push, Agent.taken,
      Agent.inHand_of_settled rfl hOutcome]
    exact hPushed
  · rw [Agent.inForce_of_settled rfl hOutcome] at hAfter
    rw [← Option.some.inj hAfter]
    exact hAddressed

/-- Entering a call. -/
theorem enter [DecidableEq T] [Husk R] {worker : Fin workers}
    (h : Sound workers channel worker agent) (call : Call τ T R) :
    Sound workers channel worker (agent.enter
      (call.task? (.exchange channel worker) agent.held) call.slots) := by
  have hSame (slots : List (Option (Message T R))) :
      Sound workers channel worker (agent.enter none slots) := by
    rw [Agent.enter_of_none]
    exact h
  cases hTask : agent.task with
  | some task =>
      rw [Agent.enter_of_task hTask]
      exact h
  | none =>
      cases call with
      | connect kind hash config address =>
          have hEntered := Agent.enter_of_idle hTask (.emptyHanded (Exchange.connect
            { index := worker, config, sink := some .memory } channel kind address hash)) []
          exact h.onward (.ask hTask rfl rfl)
            (.claiming kind hash config address (congrArg Agent.task hEntered))
      | push slot =>
          cases hHeld : agent.held with
          | none => exact hSame [slot]
          | some exchange => exact h.enter_push hTask hHeld slot
      | pull =>
          cases hHeld : agent.held with
          | none => exact hSame []
          | some exchange =>
              have hEntered := Agent.enter_of_idle hTask exchange.pulling []
              have hEffects : (exchange.pulling : Task τ T R (Exchange T R)).effects = [] := by
                rw [pulling_eq]
                rfl
              exact h.onward (.ask hTask hEffects exchange.outcome?_pulling)
                (.taking exchange ((congrArg Agent.held hEntered).trans hHeld)
                  (congrArg Agent.task hEntered))

/-- Without an end of the channel a call can but ask for one. -/
theorem inForce_of_enter [DecidableEq T] [Husk R] {worker : Fin workers} {call : Call τ T R}
    (h : (agent.enter (call.task? (.exchange channel worker) agent.held)
      call.slots).inForce ≠ none) : agent.inForce ≠ none := by
  intro hNone
  apply h
  cases hTask : agent.task with
  | some task =>
      rw [Agent.enter_of_task hTask]
      exact hNone
  | none =>
      have hHeld : agent.held = none := by
        rw [← Agent.inForce_of_idle hTask]
        exact hNone
      rw [hHeld]
      cases call with
      | connect kind hash config address =>
          rw [Call.task?, Agent.enter_of_idle hTask]
          exact hHeld
      | push slot =>
          rw [Call.task?, Option.map_none, Agent.enter_of_none]
          exact hNone
      | pull =>
          rw [Call.task?, Option.map_none, Agent.enter_of_none]
          exact hNone

variable [DecidableEq τ]

omit [DecidableEq τ] in
/-- What follows a claim: the edge is bound to log it and to be connected. -/
theorem claimed (h : Sound workers channel worker agent)
    (hBefore : agent.effects = agent.performed) (hTaken : agent.taken = agent.handed)
    (hHeld : agent.inForce = agent.held) (kind : τ) (hash : R → UInt64) (config : Config)
    (address : Address) :
    let granted : Agent τ T R (Exchange T R) := { agent with
      task := some (.emptyHanded (Traffic.claimed
        { index := worker, config, sink := some .memory } { channel, kind, hash } address workers)) }
    Sound workers channel worker granted ∧ granted.taken = agent.taken := by
  intro granted
  let context : Context := { index := worker, config, sink := some .memory }
  let link : Traffic.Link τ R := { channel, kind, hash }
  have hEffects : granted.effects =
      agent.effects ++ [.log .debug channel (exchangeNotice address workers)] := by
    rw [hBefore]
    exact congrArg (agent.performed ++ ·) (Traffic.effects_claimed context link address workers)
  have hGranted : granted.inHand = [] ∧ (granted.inForce = agent.inForce ∨
      ∃ exchange, granted.inForce = some exchange ∧
        exchange.Addressed workers channel worker) := by
    rcases Traffic.outcome?_claimed (T := T) context link address workers with
      hNone | ⟨fan, hFan, hSome⟩
    · exact ⟨Agent.inHand_of_question rfl hNone,
        Or.inl ((Agent.inForce_of_question rfl hNone).trans hHeld.symm)⟩
    · exact ⟨Agent.inHand_of_settled rfl hSome,
        Or.inr ⟨_, Agent.inForce_of_settled rfl hSome, addressed_of_create hFan⟩⟩
  have hSame : granted.taken = agent.taken := by
    rw [hTaken, Agent.taken, hGranted.1]
    exact List.append_nil _
  refine ⟨⟨.straight fun rest hRest => ?_, ?_, fun exchange hInForce => ?_,
    fun hNone effect hMem => ?_⟩, hSame⟩
  · rw [← Option.some.inj hRest]
    exact Traffic.straight_claimed context link address workers
  · rw [hEffects, hSame]
    exact h.chronicle.log .debug _
  · rcases hGranted.2 with hBefore | ⟨fresh, hFresh, hAddressed⟩
    · exact h.addressed exchange (hBefore.symm.trans hInForce)
    · rw [← Option.some.inj (hFresh.symm.trans hInForce)]
      exact hAddressed
  · rw [hEffects] at hMem
    rcases List.mem_append.mp hMem with hOld | hNew
    · exact h.blank hNone effect hOld
    · exact ⟨_, _, List.mem_singleton.mp hNew⟩

/-- What the claim of a connect comes to is all that the worker learns. -/
theorem act_claiming (h : Sound workers channel worker agent) {kind : τ} {hash : R → UInt64}
    {config : Config} {address : Address}
    (hTask : agent.task = some (.emptyHanded (Exchange.connect
      { index := worker, config, sink := some .memory } channel kind address hash)))
    {world : World τ (Message T R)} (hCount : world.fabric.workers = workers) :
    Agent.Acted channel worker agent world (agent.act worker world).1
        (agent.act worker world).2 ∧
      Sound workers channel worker (agent.act worker world).1 := by
  have hBefore : agent.effects = agent.performed := by
    rw [Agent.effects, hTask]
    exact List.append_nil _
  have hTaken : agent.taken = agent.handed := by
    rw [Agent.taken, Agent.inHand_of_question hTask rfl]
    exact List.append_nil _
  have hHeld : agent.inForce = agent.held := Agent.inForce_of_question hTask rfl
  let link : Traffic.Link τ R := { channel, kind, hash }
  have hTask : agent.task = some (.emptyHanded (Exchange.connect
      { index := worker, config, sink := some .memory } link.channel link.kind address
      link.hash)) := hTask
  rw [Traffic.act_connect hTask]
  cases hClaim : world.fabric.claim channel kind worker with
  | error error =>
      let refused : Agent τ T R (Exchange T R) :=
        { agent with task := some (.fail (.connect (.claim error))) }
      have hOnward : agent.Onward refused :=
        { effects := hBefore.symm ▸ List.append_nil _
          inForce := (Agent.inForce_of_question rfl rfl).trans hHeld.symm
          taken := hTaken.symm ▸ List.append_nil _
          slots := rfl
          held := id }
      refine ⟨.strode (.silent hOnward rfl rfl), h.onward hOnward (.straight fun task hFail => ?_)⟩
      rw [← Option.some.inj hFail]
      trivial
  | ok fabric =>
      obtain ⟨hSound, hSame⟩ := h.claimed hBefore hTaken hHeld kind hash config address
      dsimp only
      rw [Fabric.claim_workers hClaim, hCount]
      exact ⟨.claim kind hClaim rfl hSame, hSound⟩

/-- The message that a pull takes is in hand from then on. -/
theorem act_taking (h : Sound workers channel worker agent) {exchange : Exchange T R}
    (hHeld : agent.held = some exchange) (hTask : agent.task = some exchange.pulling)
    (world : World τ (Message T R)) :
    Agent.Acted channel worker agent world (agent.act worker world).1
        (agent.act worker world).2 ∧
      Sound workers channel worker (agent.act worker world).1 := by
  have hQuestion := exchange.outcome?_pulling (τ := τ)
  have hBefore : agent.effects = agent.performed := by
    rw [Agent.effects, hTask, Option.elim_some, pulling_eq]
    exact List.append_nil _
  have hTaken : agent.taken = agent.handed := by
    rw [Agent.taken, Agent.inHand_of_question hTask hQuestion]
    exact List.append_nil _
  have hInForce : agent.inForce = some exchange :=
    (Agent.inForce_of_question hTask hQuestion).trans hHeld
  have hAddressed := h.addressed exchange hInForce
  have hSome : agent.held ≠ none := by
    rw [hHeld]
    exact Option.some_ne_none exchange
  rw [Traffic.act_pulling hTask, hAddressed.outlet]
  let message := (world.take channel worker).1
  let holding : Agent τ T R (Exchange T R) := { agent with task := some (exchange.pulled message) }
  have hOutcome := exchange.outcome?_pulled (τ := τ) message
  have hAfter : holding.inForce = some exchange := Agent.inForce_of_settled rfl hOutcome
  have hHolding : holding.taken = agent.taken ++ message.toList := by
    rw [hTaken, Agent.taken, Agent.inHand_of_settled rfl hOutcome]
  refine ⟨.take (hAfter.trans hInForce.symm) rfl hHolding rfl,
    ⟨.straight fun rest hRest => ?_, ?_, ?_, fun hNone => absurd hNone hSome⟩⟩
  · rw [← Option.some.inj hRest]
    exact exchange.straight_pulled message
  · change Chronicle _ _ _ (agent.performed ++ (exchange.pulled message).effects) holding.taken
    rw [effects_pulled, ← hBefore, hHolding]
    exact hAddressed.reports h.chronicle message
  · intro other hOther
    rw [← Option.some.inj (hAfter.symm.trans hOther)]
    exact hAddressed

/-- Every act is one of those listed, and it leaves the worker's end in order. -/
theorem act (h : Sound workers channel worker agent) {world : World τ (Message T R)}
    (hCount : world.fabric.workers = workers) :
    Agent.Acted channel worker agent world (agent.act worker world).1
        (agent.act worker world).2 ∧
      Sound workers channel worker (agent.act worker world).1 := by
  cases h.phase with
  | straight hStraight =>
      obtain ⟨hStrode, hAfter⟩ := Agent.strode hStraight worker world
      exact ⟨.strode hStrode, h.onward hStrode.onward (.straight hAfter)⟩
  | claiming kind hash config address hTask => exact h.act_claiming hTask hCount
  | taking exchange hHeld hTask => exact h.act_taking hHeld hTask world

end Sound

/-- No call has taken anything when it is entered. -/
theorem taken_enter [DecidableEq T] [Husk R] {workers : Nat} {channel : UInt32}
    {worker : Fin workers} {agent : Agent τ T R (Exchange T R)} (call : Call τ T R) :
    (agent.enter (call.task? (.exchange channel worker) agent.held) call.slots).taken =
      agent.taken := by
  refine agent.taken_enter (fun rest hRest => ?_) call.slots
  cases call with
  | connect kind hash config address =>
      rw [← Option.some.inj hRest]
      rfl
  | push slot =>
      obtain ⟨exchange, -, hTask⟩ := Option.map_eq_some_iff.mp hRest
      rw [← hTask, outcome?_push]
      rfl
  | pull =>
      obtain ⟨exchange, -, hTask⟩ := Option.map_eq_some_iff.mp hRest
      rw [← hTask, outcome?_pulling]
      rfl

end Exchange

namespace Pipe

open Network

/-- Both ends know their place and report to memory. -/
structure Addressed (channel worker : UInt32) (pipe : Pipe T R) : Prop where
  sender : ∃ counter, pipe.sender = ⟨channel, worker, worker, some .memory, counter⟩
  receiver : pipe.receiver = ⟨channel, worker, some .memory⟩

/-- A private edge is in order. It has no questions to ask. -/
structure Sound (channel worker : UInt32) (agent : Agent τ T R (Pipe T R)) : Prop where
  straight : agent.Straight
  chronicle : Chronicle channel worker agent.effects agent.slots (agent.inForce.elim [] waiting)
  addressed : ∀ pipe, agent.inForce = some pipe → pipe.Addressed channel worker
  /-- Before it is connected it can do no more than write to the log. -/
  blank : agent.held = none →
    ∀ effect ∈ agent.effects, ∃ level text, effect = .log level channel text

/-- A push announces the message of the slot and puts it behind those that wait. -/
theorem Addressed.push {channel worker : UInt32} {pipe : Pipe T R}
    (h : pipe.Addressed channel worker) {effects : List (Effect (Message T R))}
    {slots : List (Option (Message T R))}
    (hChronicle : Chronicle channel worker effects slots pipe.waiting)
    (slot : Option (Message T R)) :
    ∃ acts after, (Task.emptyHanded (pipe.push slot) : Task τ T R (Pipe T R)) =
        .script acts (.finish (none, after)) ∧
      after.Addressed channel worker ∧
        Chronicle channel worker (effects ++ acts) (slots ++ [slot]) after.waiting := by
  obtain ⟨sender, receiver, waiting⟩ := pipe
  obtain ⟨⟨counter, hSender⟩, hReceiver⟩ := h
  cases hSender
  cases slot with
  | none =>
      refine ⟨[], ⟨_, receiver, waiting ++ []⟩, rfl, ⟨⟨counter, rfl⟩, hReceiver⟩, ?_⟩
      rw [List.append_nil, List.append_nil]
      exact hChronicle.flush
  | some message =>
      let stamped : Message T R := { message with seq := counter, source := worker }
      exact ⟨[.note .memory (stamped.event true channel worker)], ⟨_, receiver, waiting ++ [stamped]⟩,
        rfl, ⟨⟨counter + 1, rfl⟩, hReceiver⟩, hChronicle.push message counter⟩

/-- A pull announces the oldest message and takes it out. -/
theorem Addressed.pull {channel worker : UInt32} {pipe : Pipe T R}
    (h : pipe.Addressed channel worker) {effects : List (Effect (Message T R))}
    {slots : List (Option (Message T R))}
    (hChronicle : Chronicle channel worker effects slots pipe.waiting) :
    ∃ acts after, (pipe.pull : Task τ T R (Pipe T R)) =
        .script acts (.finish (pipe.waiting.head?, after)) ∧
      after.Addressed channel worker ∧
        Chronicle channel worker (effects ++ acts) slots after.waiting := by
  obtain ⟨sender, receiver, waiting⟩ := pipe
  obtain ⟨hSender, hReceiver⟩ := h
  cases hReceiver
  cases waiting with
  | nil =>
      refine ⟨[], ⟨sender, _, []⟩, rfl, ⟨hSender, rfl⟩, ?_⟩
      rw [List.append_nil]
      exact hChronicle
  | cons message rest => exact ⟨_, ⟨sender, _, rest⟩, rfl, ⟨hSender, rfl⟩, hChronicle.pull⟩

namespace Sound

variable {channel worker : UInt32} {agent : Agent τ T R (Pipe T R)}

theorem start : Sound channel worker ({} : Agent τ T R (Pipe T R)) where
  straight := Agent.straight_of_idle rfl
  chronicle := .nil
  addressed _ hPipe := absurd hPipe.symm (Option.some_ne_none _)
  blank _ _ hMem := absurd hMem List.not_mem_nil

theorem onward {after : Agent τ T R (Pipe T R)} (h : Sound channel worker agent)
    (hOnward : Agent.Onward agent after) (hStraight : after.Straight) :
    Sound channel worker after where
  straight := hStraight
  chronicle := by
    rw [hOnward.effects, hOnward.slots, hOnward.inForce]
    exact h.chronicle
  addressed := by
    rw [hOnward.inForce]
    exact h.addressed
  blank hHeld := by
    rw [hOnward.effects]
    exact h.blank (hOnward.held hHeld)

/-- A call that continues the chronicle. -/
theorem enter_task (h : Sound channel worker agent) (hTask : agent.task = none)
    {acts : List (Effect (Message T R))} {after : Pipe T R}
    (hAddressed : after.Addressed channel worker) {slots : List (Option (Message T R))}
    (hChronicle : Chronicle channel worker (agent.effects ++ acts) (agent.slots ++ slots)
      after.waiting)
    (hBlank : agent.held = none → ∀ effect ∈ acts, ∃ level text, effect = .log level channel text)
    {task : Task τ T R (Pipe T R)} {message : Option (Message T R)}
    (hEntered : task = .script acts (.finish (message, after))) :
    Sound channel worker (agent.enter (some task) slots) := by
  have hEffects : task.effects = acts := by
    rw [hEntered, Program.effects_script]
    exact List.append_nil acts
  have hOutcome : task.outcome? = some (message, after) := by
    rw [hEntered, Program.outcome?_script]
    rfl
  rw [Agent.effects_of_idle hTask] at hChronicle
  rw [Agent.enter_of_idle hTask]
  refine ⟨fun rest hRest => ?_, ?_, fun pipe hPipe => ?_, fun hHeld effect hMem => ?_⟩
  · rw [← Option.some.inj hRest, hEntered]
    exact Program.straight_script acts trivial
  · rw [Agent.effects, Option.elim_some, hEffects, Agent.inForce_of_settled rfl hOutcome]
    exact hChronicle
  · rw [Agent.inForce_of_settled rfl hOutcome] at hPipe
    rw [← Option.some.inj hPipe]
    exact hAddressed
  · rw [Agent.effects, Option.elim_some, hEffects, ← Agent.effects_of_idle hTask] at hMem
    rcases List.mem_append.mp hMem with hOld | hNew
    · exact h.blank hHeld effect hOld
    · exact hBlank hHeld effect hNew

/-- Entering the call that connects the edge. -/
theorem enter_connect [DecidableEq T] {worker : Nat}
    (h : Sound channel (UInt32.ofNat worker) agent) (hTask : agent.task = none)
    (hHeld : agent.held = none) (config : Config) (address : Address) :
    Sound channel (UInt32.ofNat worker) (agent.enter (some (.emptyHanded (Pipe.connect
      { index := worker, config, sink := some .memory } channel address))) []) := by
  let word := UInt32.ofNat worker
  let pipe : Pipe T R :=
    { sender := ⟨channel, word, word, some .memory, 0⟩
      receiver := ⟨channel, word, some .memory⟩ }
  have hPipe : pipe.Addressed channel word := ⟨⟨0, rfl⟩, rfl⟩
  have hChronicle := h.chronicle
  rw [Agent.inForce_of_idle hTask, hHeld] at hChronicle
  have hLogged := hChronicle.log .debug (pipelineNotice address)
  rw [← List.append_nil agent.slots] at hLogged
  have hBlank : agent.held = none → ∀ effect ∈ [Effect.log (M := Message T R) .debug
      channel (pipelineNotice address)], ∃ level text, effect = .log level channel text :=
    fun _ effect hMem => ⟨_, _, List.mem_singleton.mp hMem⟩
  exact h.enter_task hTask hPipe hLogged hBlank rfl

/-- Entering a call. -/
theorem enter [DecidableEq T] [Husk R] {workers : Nat} {worker : Fin workers} {name : Nat}
    (h : Sound channel (UInt32.ofNat worker) agent) (call : Call τ T R) :
    Sound channel (UInt32.ofNat worker) (agent.enter
      (call.task? (.pipe channel worker name) agent.held) call.slots) := by
  have hSame (slots : List (Option (Message T R))) :
      Sound channel (UInt32.ofNat worker) (agent.enter none slots) := by
    rw [Agent.enter_of_none]
    exact h
  cases hTask : agent.task with
  | some task =>
      rw [Agent.enter_of_task hTask]
      exact h
  | none =>
      cases hHeld : agent.held with
      | none =>
          cases call with
          | connect kind hash config address => exact h.enter_connect hTask hHeld config address
          | push slot => exact hSame [slot]
          | pull => exact hSame []
      | some pipe =>
          have hInForce : agent.inForce = some pipe := by
            rw [Agent.inForce_of_idle hTask, hHeld]
          have hAddressed := h.addressed pipe hInForce
          have hChronicle := h.chronicle
          rw [hInForce] at hChronicle
          have hSome : agent.held ≠ none := by
            rw [hHeld]
            exact Option.some_ne_none pipe
          cases call with
          | connect kind hash config address => exact hSame []
          | push slot =>
              obtain ⟨acts, after, hPush, hAfter, hPushed⟩ :=
                hAddressed.push (τ := τ) hChronicle slot
              exact h.enter_task hTask hAfter hPushed (fun hNone => absurd hNone hSome) hPush
          | pull =>
              obtain ⟨acts, after, hPull, hAfter, hPulled⟩ :=
                hAddressed.pull (τ := τ) hChronicle
              rw [← List.append_nil agent.slots] at hPulled
              exact h.enter_task hTask hAfter hPulled (fun hNone => absurd hNone hSome) hPull

/-- An act is a step of a straight call. -/
theorem act [DecidableEq τ] (h : Sound channel worker agent) (holder : Nat)
    (world : World τ (Message T R)) :
    Agent.Strode holder agent world (agent.act holder world).1 (agent.act holder world).2 ∧
      Sound channel worker (agent.act holder world).1 := by
  obtain ⟨hStrode, hAfter⟩ := Agent.strode h.straight holder world
  exact ⟨hStrode, h.onward hStrode.onward hAfter⟩

end Sound

end Pipe

end Dataflow
