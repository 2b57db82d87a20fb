import Dataflow.Proofs.Fabric.Mailbox
import Dataflow.Proofs.Traffic.Books

/-! One worker at a channel, act by act. A call asks at most one question of the world, and asks it
first: a connect claims and a pull takes. What follows is straight, so an act is a granted claim, a
take, an effect, or nothing that anyone else can see. -/
namespace Dataflow

variable {τ M ε T R : Type}

/-- A push is a script of acts. -/
theorem Exchange.push_eq [DecidableEq T] [Husk R] (slot : Option (Message T R))
    (exchange : Exchange T R) :
    (exchange.push slot : Program τ (Message T R) ε (Exchange T R)) =
      Program.script (exchange.acts slot) (.finish (exchange.pushed slot)) :=
  rfl

/-- Reports deliver nothing. -/
theorem deliveries_reports (channel : UInt32) (target : Nat) (receiver : Receiver)
    (messages : List (Message T R)) :
    deliveries channel target (Pipe.reports (M := M) receiver messages) = [] := by
  rw [Pipe.reports, deliveries]
  cases receiver.sink with
  | none => rfl
  | some sink =>
      rw [List.filterMap_map]
      exact List.filterMap_eq_nil_iff.mpr fun _ _ => rfl

namespace Exchange

/-- The rest of a pull once it has its answer. -/
def pulled (exchange : Exchange T R) (message : Option (Message T R)) :
    Task τ T R (Exchange T R) :=
  .script (Pipe.reports exchange.receiver message.toList) (.finish (message, exchange))

/-- A pull first takes, and what it took decides how it goes on. -/
theorem pulling_eq (exchange : Exchange T R) :
    (exchange.pulling : Task τ T R (Exchange T R)) = .take exchange.channel exchange.pulled := by
  change Program.take _ _ = _
  congr 1
  funext message
  exact Program.andThen_script _ (.finish message) fun message => .finish (message, exchange)

/-- Before it takes, a pull is bound to nothing. -/
theorem outcome?_pulling (exchange : Exchange T R) :
    (exchange.pulling : Task τ T R (Exchange T R)).outcome? = none := by
  rw [pulling_eq]
  rfl

/-- What a pull has taken it is bound to hand out. -/
theorem outcome?_pulled (exchange : Exchange T R) (message : Option (Message T R)) :
    (exchange.pulled message : Task τ T R (Exchange T R)).outcome? = some (message, exchange) :=
  Program.outcome?_script _ _

/-- After taking a message a pull only reports it. -/
theorem effects_pulled (exchange : Exchange T R) (message : Option (Message T R)) :
    (exchange.pulled message : Task τ T R (Exchange T R)).effects =
      Pipe.reports exchange.receiver message.toList := by
  rw [pulled, Program.effects_script]
  exact List.append_nil _

theorem straight_pulled (exchange : Exchange T R) (message : Option (Message T R)) :
    (exchange.pulled message : Task τ T R (Exchange T R)).Straight :=
  Program.straight_script _ trivial

section Push

variable [DecidableEq T] [Husk R] (slot : Option (Message T R)) (exchange : Exchange T R)

/-- A push performs its acts and nothing else. -/
theorem effects_push :
    (Task.emptyHanded (exchange.push slot) : Task τ T R (Exchange T R)).effects =
      exchange.acts slot := by
  rw [Task.emptyHanded, Program.effects_map, push_eq, Program.effects_script]
  exact List.append_nil _

/-- What a push leaves is settled when it begins. -/
theorem outcome?_push :
    (Task.emptyHanded (exchange.push slot) : Task τ T R (Exchange T R)).outcome? =
      some (none, exchange.pushed slot) := by
  rw [Task.emptyHanded, Program.outcome?_map, push_eq, Program.outcome?_script]
  rfl

theorem straight_push :
    (Task.emptyHanded (exchange.push slot) : Task τ T R (Exchange T R)).Straight :=
  Program.straight_map _ (Program.straight_script _ trivial)

end Push

end Exchange

namespace Traffic

/-- The rest of a connect once the claim is granted. -/
def claimed (context : Context) (link : Link τ R) (address : Address) (peers : Nat) :
    Program τ (Message T R) WorkerError (Exchange T R) :=
  let index := context.word
  let sink := context.sink
  .perform (.log .debug link.channel (exchangeNotice address peers)) fun _ =>
    match FanOut.create (Sender.towardsAll link.channel index sink peers) context.config.capacity
      link.hash with
    | .error error => .fail (.connect (.fanOut error))
    | .ok fan =>
      .finish { channel := link.channel, fan, receiver := { channel := link.channel, index, sink } }

section Claimed

variable (context : Context) (link : Link τ R) (address : Address) (peers : Nat)

/-- A connect first claims its channel, and the answer decides how it goes on. -/
theorem connect_eq :
    (Task.emptyHanded (Exchange.connect context link.channel link.kind address link.hash) :
        Task τ T R (Exchange T R)) =
      .claim link.channel link.kind fun answer =>
        match answer with
        | .error error => .fail (.connect (.claim error))
        | .ok peers => Task.emptyHanded (claimed context link address peers) := by
  change Program.claim _ _ _ = _
  congr 1
  funext answer
  cases answer <;> rfl

/-- A connect has no message to hand out, and it leaves an end of the channel unless its distributor
cannot be made. -/
theorem outcome?_claimed :
    (Task.emptyHanded (claimed context link address peers) :
        Task τ T R (Exchange T R)).outcome? = none ∨
      ∃ fan, FanOut.create (Sender.towardsAll link.channel context.word context.sink peers)
          context.config.capacity link.hash = .ok fan ∧
        (Task.emptyHanded (claimed context link address peers) :
          Task τ T R (Exchange T R)).outcome? = some (none,
            { channel := link.channel, fan,
              receiver := ⟨link.channel, context.word, context.sink⟩ }) := by
  simp only [Task.emptyHanded, Program.outcome?_map, claimed, Program.outcome?]
  cases hFan : (FanOut.create (Sender.towardsAll link.channel context.word context.sink peers)
      context.config.capacity link.hash : Except FanOutError (FanOut T R)) with
  | error error => exact Or.inl rfl
  | ok fan => exact Or.inr ⟨fan, rfl, rfl⟩

theorem straight_claimed :
    (Task.emptyHanded (claimed context link address peers) :
      Task τ T R (Exchange T R)).Straight := by
  apply Program.straight_map
  simp only [claimed, Program.Straight]
  cases (FanOut.create (Sender.towardsAll link.channel context.word context.sink peers)
      context.config.capacity link.hash : Except FanOutError (FanOut T R)) with
  | error error => trivial
  | ok fan => trivial

theorem effects_claimed :
    (Task.emptyHanded (claimed context link address peers) :
        Task τ T R (Exchange T R)).effects =
      [.log .debug link.channel (exchangeNotice address peers)] := by
  rw [Task.emptyHanded, Program.effects_map]
  simp only [claimed, Program.effects]
  cases (FanOut.create (Sender.towardsAll link.channel context.word context.sink peers)
      context.config.capacity link.hash : Except FanOutError (FanOut T R)) with
  | error error => rfl
  | ok fan => rfl

end Claimed

section Act

variable [DecidableEq τ] {agent : Agent τ T R (Exchange T R)} {worker : Nat}

/-- The first act of a connect: the claim is refused, or what follows is settled. -/
theorem act_connect {context : Context} {link : Link τ R} {address : Address}
    (h : agent.task = some (.emptyHanded
      (Exchange.connect context link.channel link.kind address link.hash)))
    (world : World τ (Message T R)) :
    agent.act worker world =
      match world.fabric.claim link.channel link.kind worker with
      | .error error => ({ agent with task := some (.fail (.connect (.claim error))) }, world)
      | .ok fabric =>
        ({ agent with task := some (.emptyHanded (claimed context link address fabric.workers)) },
          { world with fabric }) := by
  rw [Agent.act_of_some h, connect_eq]
  simp only [World.act, World.claim]
  cases world.fabric.claim link.channel link.kind worker <;> rfl

/-- The first act of a pull: from then on the message is in hand. -/
theorem act_pulling {exchange : Exchange T R} (h : agent.task = some exchange.pulling)
    (world : World τ (Message T R)) :
    agent.act worker world =
      ({ agent with task := some (exchange.pulled (world.take exchange.channel worker).1) },
        (world.take exchange.channel worker).2) := by
  rw [Exchange.pulling_eq] at h
  rw [Agent.act_of_some h]
  rfl

end Act

/-- Where a worker can stand between two acts. -/
inductive Phase (link : Link τ R) (worker : Nat) (agent : Agent τ T R (Exchange T R)) : Prop where
  | straight (h : agent.Straight)
  | claiming (context : Context) (address : Address) (hIndex : context.index = worker)
      (h : agent.task = some (.emptyHanded
        (Exchange.connect context link.channel link.kind address link.hash)))
  | taking (exchange : Exchange T R) (hHeld : agent.held = some exchange)
      (h : agent.task = some exchange.pulling)

/-- Nothing has changed that the books are about. -/
structure Same (channel : UInt32) (before after : Agent τ T R (Exchange T R)) : Prop where
  inForce : after.inForce = before.inForce
  sent : ∀ target, after.sent channel target = before.sent channel target
  slots : after.slots = before.slots

variable {link : Link τ R} {worker : Nat} {agent before after : Agent τ T R (Exchange T R)}

/-- What is settled stays settled. -/
theorem Same.of_onward (h : before.Onward after) (channel : UInt32) :
    Same channel before after where
  inForce := h.inForce
  sent target := congrArg (deliveries channel target) h.effects
  slots := h.slots

variable [DecidableEq τ]

/-- All that one act can do to the worker and to the fabric. -/
inductive Acted (link : Link τ R) (worker : Nat) (before : Agent τ T R (Exchange T R))
    (world : World τ (Message T R)) (after : Agent τ T R (Exchange T R))
    (world' : World τ (Message T R)) : Prop where
  | strode (h : before.Strode worker world after world')
  | take (exchange : Exchange T R) (hInForce : before.inForce = some exchange)
      (same : Same link.channel before after) (hPerformed : after.performed = before.performed)
      (hTaken : after.taken =
        before.taken ++ (world.take exchange.channel worker).1.toList)
      (hWorld : world' = (world.take exchange.channel worker).2)
  | claim (hClaim : world.fabric.claim link.channel link.kind worker = .ok world'.fabric)
      (hSent : ∀ target, after.sent link.channel target = before.sent link.channel target)
      (hSlots : after.slots = before.slots) (hPerformed : after.performed = before.performed)
      (hTaken : after.taken = before.taken)
      (hInForce : after.inForce = before.inForce ∨ ∃ sink capacity fan receiver,
        FanOut.create (Sender.towardsAll link.channel (UInt32.ofNat worker) sink
            world'.fabric.workers) capacity link.hash = .ok fan ∧
          after.inForce = some { channel := link.channel, fan, receiver })

/-- The claim of a connect makes or refuses the end of the channel. -/
theorem acted_claiming {context : Context} {address : Address} (hIndex : context.index = worker)
    (h : agent.task = some (.emptyHanded
      (Exchange.connect context link.channel link.kind address link.hash)))
    (world : World τ (Message T R)) :
    Acted link worker agent world (agent.act worker world).1 (agent.act worker world).2 ∧
      Phase link worker (agent.act worker world).1 := by
  have hEffects : agent.effects = agent.performed := by
    rw [Agent.effects, h]
    exact List.append_nil _
  have hInForce : agent.inForce = agent.held := Agent.inForce_of_question h rfl
  have hTaken : agent.taken = agent.handed := by
    rw [Agent.taken, Agent.inHand_of_question h rfl]
    exact List.append_nil _
  rw [act_connect h]
  cases hClaim : world.fabric.claim link.channel link.kind worker with
  | error error =>
      let refused : Agent τ T R (Exchange T R) :=
        { agent with task := some (.fail (.connect (.claim error))) }
      have hOnward : agent.Onward refused :=
        { effects := hEffects.symm ▸ List.append_nil _
          inForce := (Agent.inForce_of_question rfl rfl).trans hInForce.symm
          taken := hTaken.symm ▸ List.append_nil _
          slots := rfl
          held := id }
      refine ⟨.strode (.silent hOnward rfl rfl), .straight fun task hTask => ?_⟩
      rw [← Option.some.inj hTask]
      trivial
  | ok fabric =>
      let rest : Task τ T R (Exchange T R) :=
        .emptyHanded (claimed context link address fabric.workers)
      let granted : Agent τ T R (Exchange T R) := { agent with task := some rest }
      have hGranted : granted.inHand = [] ∧ (granted.inForce = agent.inForce ∨
          ∃ sink capacity fan receiver,
            FanOut.create (Sender.towardsAll link.channel (UInt32.ofNat worker) sink
                fabric.workers) capacity link.hash = .ok fan ∧
              granted.inForce = some { channel := link.channel, fan, receiver }) := by
        rcases outcome?_claimed (T := T) context link address fabric.workers with
          hNone | ⟨fan, hFan, hSome⟩
        · exact ⟨Agent.inHand_of_question rfl hNone,
            Or.inl ((Agent.inForce_of_question rfl hNone).trans hInForce.symm)⟩
        · rw [← hIndex]
          exact ⟨Agent.inHand_of_settled rfl hSome, Or.inr ⟨context.sink,
            context.config.capacity, fan, _, hFan, Agent.inForce_of_settled rfl hSome⟩⟩
      refine ⟨.claim hClaim (fun target => ?_) rfl rfl ?_ hGranted.2,
        .straight fun task hTask => ?_⟩
      · change deliveries link.channel target (agent.performed ++ rest.effects) = _
        rw [Agent.sent, hEffects, effects_claimed, deliveries_append]
        exact List.append_nil _
      · rw [hTaken, Agent.taken, hGranted.1]
        exact List.append_nil _
      · rw [← Option.some.inj hTask]
        exact straight_claimed context link address fabric.workers

/-- Taking moves the oldest message from the mailbox into the hands of the pull. -/
theorem acted_taking {exchange : Exchange T R} (hHeld : agent.held = some exchange)
    (h : agent.task = some exchange.pulling) (world : World τ (Message T R)) :
    Acted link worker agent world (agent.act worker world).1 (agent.act worker world).2 ∧
      Phase link worker (agent.act worker world).1 := by
  have hQuestion := exchange.outcome?_pulling (τ := τ)
  have hInForce : agent.inForce = some exchange :=
    (Agent.inForce_of_question h hQuestion).trans hHeld
  rw [act_pulling h]
  let message := (world.take exchange.channel worker).1
  let holding : Agent τ T R (Exchange T R) :=
    { agent with task := some (exchange.pulled message) }
  have hOutcome := exchange.outcome?_pulled (τ := τ) message
  have hHolding : holding.inHand = message.toList := Agent.inHand_of_settled rfl hOutcome
  have same : Same link.channel agent holding :=
    { inForce := (Agent.inForce_of_settled rfl hOutcome).trans hInForce.symm
      sent := by
        intro target
        rw [Agent.sent, Agent.sent, Agent.effects, Agent.effects, h, Option.elim_some,
          Option.elim_some, Exchange.effects_pulled, Exchange.pulling_eq, deliveries_append,
          deliveries_append, deliveries_reports]
        rfl
      slots := rfl }
  refine ⟨.take exchange hInForce same rfl ?_ rfl, .straight fun task hTask => ?_⟩
  · rw [Agent.taken, Agent.taken, Agent.inHand_of_question h hQuestion, List.append_nil]
    exact congrArg _ hHolding
  · rw [← Option.some.inj hTask]
    exact exchange.straight_pulled message

/-- Every act is one of those listed, and it leads to where a worker can stand. -/
theorem Phase.acted (h : Phase link worker agent) (world : World τ (Message T R)) :
    Acted link worker agent world (agent.act worker world).1 (agent.act worker world).2 ∧
      Phase link worker (agent.act worker world).1 := by
  cases h with
  | straight hStraight =>
      obtain ⟨hStrode, hAfter⟩ := Agent.strode hStraight worker world
      exact ⟨.strode hStrode, .straight hAfter⟩
  | claiming context address hIndex h => exact acted_claiming hIndex h world
  | taking exchange hHeld h => exact acted_taking hHeld h world

end Traffic

end Dataflow
