import Dataflow.Proofs.Worker.Program

/-! One end of a channel in the hands of a worker. The acts of a call are performed one by one by
`World.act`, and anything may happen to the world between two of them. A pull hands its message out
when the call returns, and not before; up to then the message is in the hands of the call. -/
namespace Dataflow

variable {τ T R E : Type}

/-- The rest of a call. It returns the message that the call hands out, if it hands out one, and the
end of the channel as the call leaves it. -/
abbrev Task (τ T R E : Type) :=
  Program τ (Message T R) WorkerError (Option (Message T R) × E)

/-- A call that hands nothing out. -/
def Task.emptyHanded (program : Program τ (Message T R) WorkerError E) :
    Program τ (Message T R) WorkerError (Option (Message T R) × E) :=
  (none, ·) <$> program

/-- The call that pulls from the mailbox. -/
def Exchange.pulling (exchange : Exchange T R) :
    Program τ (Message T R) WorkerError (Option (Message T R) × Exchange T R) :=
  (·, exchange) <$> exchange.pull

/-- One end of a channel at one worker: what is held of it, the rest of the call that it is in, and
its history. No call depends on the history. -/
structure Agent (τ T R E : Type) where
  held : Option E := none
  task : Option (Task τ T R E) := none
  /-- The slots of all pushes so far. -/
  slots : List (Option (Message T R)) := []
  /-- The effects performed so far. -/
  performed : List (Effect (Message T R)) := []
  /-- The messages that the calls so far have handed out. -/
  handed : List (Message T R) := []

namespace Agent

/-- Enters a call, unless it is still in another. -/
def enter (agent : Agent τ T R E) (task : Option (Task τ T R E))
    (slots : List (Option (Message T R))) : Agent τ T R E :=
  match agent.task, task with
  | none, some task => { agent with task := some task, slots := agent.slots ++ slots }
  | none, none | some _, _ => agent

/-- Writes the next act of a task into the history. -/
def record (agent : Agent τ T R E) : Task τ T R E → Agent τ T R E
  | .perform effect _ => { agent with performed := agent.performed ++ [effect] }
  | .finish _ | .fail _ | .claim _ _ _ | .take _ _ | .drain _ _ | .meet _ => agent

/-- Stands where an act has led. A call that returns hands out its message; a call that fails leaves
the end of the channel as it was. -/
def settle (agent : Agent τ T R E) :
    Status τ (Message T R) WorkerError (Option (Message T R) × E) → Agent τ T R E
  | .running rest | .waiting rest => { agent with task := some rest }
  | .returned (message, edge) =>
    { agent with task := none, held := some edge, handed := agent.handed ++ message.toList }
  | .failed _ => { agent with task := none }

def act [DecidableEq τ] (worker : Nat) (world : World τ (Message T R)) (agent : Agent τ T R E) :
    Agent τ T R E × World τ (Message T R) :=
  match agent.task with
  | none => (agent, world)
  | some task =>
    let (status, after) := world.act worker task
    ((agent.record task).settle status, after)

def acts [DecidableEq τ] (worker : Nat) :
    (count : Nat) → Agent τ T R E × World τ (Message T R) → Agent τ T R E × World τ (Message T R)
  | 0, state => state
  | count + 1, (agent, world) => acts worker count (agent.act worker world)

/-- All effects so far, and then those that the call is bound to perform as far as that is
settled. -/
def effects (agent : Agent τ T R E) : List (Effect (Message T R)) :=
  agent.performed ++ agent.task.elim [] Program.effects

/-- What the call that it is in will return, as far as that is settled. -/
def outcome? (agent : Agent τ T R E) : Option (Option (Message T R) × E) :=
  agent.task.bind Program.outcome?

/-- The end of the channel as it will be after the call that it is in, as far as that is settled, and
otherwise as it is. -/
def inForce (agent : Agent τ T R E) : Option E := (agent.outcome?.map Prod.snd).or agent.held

/-- The message that the call has taken and is yet to hand out. -/
def inHand (agent : Agent τ T R E) : List (Message T R) :=
  agent.outcome?.elim [] fun outcome => outcome.1.toList

/-- All messages that the worker has taken in, the last of which its call may not yet have handed
out. -/
def taken (agent : Agent τ T R E) : List (Message T R) := agent.handed ++ agent.inHand

/-- Nothing has changed that was settled. -/
structure Onward (before after : Agent τ T R E) : Prop where
  effects : after.effects = before.effects
  inForce : after.inForce = before.inForce
  taken : after.taken = before.taken
  slots : after.slots = before.slots
  held : after.held = none → before.held = none

/-- All that one act of a straight call can do. -/
inductive Strode (worker : Nat) (before : Agent τ T R E) (world : World τ (Message T R))
    (after : Agent τ T R E) (world' : World τ (Message T R)) : Prop where
  | silent (onward : Onward before after) (hPerformed : after.performed = before.performed)
      (hFabric : world'.fabric = world.fabric)
  | effect (effect : Effect (Message T R)) (onward : Onward before after)
      (hPerformed : after.performed = before.performed ++ [effect])
      (hWorld : world' = world.perform worker effect)

theorem Strode.onward {worker : Nat} {before after : Agent τ T R E}
    {world world' : World τ (Message T R)} (h : Strode worker before world after world') :
    Onward before after := by
  cases h with
  | silent onward hPerformed hFabric => exact onward
  | effect effect onward hPerformed hWorld => exact onward

/-- Whatever the call that it is in, it asks no question any more. -/
def Straight (agent : Agent τ T R E) : Prop := ∀ task, agent.task = some task → task.Straight

variable {worker : Nat} {agent : Agent τ T R E}

/-- What has been performed is the first part of what is settled. -/
theorem performed_prefix_effects (agent : Agent τ T R E) : agent.performed <+: agent.effects :=
  List.prefix_append _ _

section Idle

variable (h : agent.task = none)

include h

/-- A worker that is in no call has nothing to perform. -/
theorem effects_of_idle : agent.effects = agent.performed := by
  rw [effects, h]
  exact List.append_nil _

/-- Between calls the end in force is the end that is held. -/
theorem inForce_of_idle : agent.inForce = agent.held := by
  rw [inForce, outcome?, h]
  rfl

/-- Between two calls everything taken in has been handed out. -/
theorem inHand_of_idle : agent.inHand = [] := by
  rw [inHand, outcome?, h]
  rfl

theorem straight_of_idle : agent.Straight :=
  fun _ hTask => absurd (h.symm.trans hTask).symm (Option.some_ne_none _)

end Idle

section Question

variable {task : Task τ T R E} (h : agent.task = some task) (hOutcome : task.outcome? = none)

include h hOutcome

/-- While a question is open nothing is settled. -/
theorem inForce_of_question : agent.inForce = agent.held := by
  rw [inForce, outcome?, h, Option.bind_some, hOutcome]
  rfl

/-- A call that is still to ask has nothing in hand. -/
theorem inHand_of_question : agent.inHand = [] := by
  rw [inHand, outcome?, h, Option.bind_some, hOutcome]
  rfl

end Question

section Settled

variable {task : Task τ T R E} {message : Option (Message T R)} {edge : E}
  (h : agent.task = some task) (hOutcome : task.outcome? = some (message, edge))

include h hOutcome

theorem inForce_of_settled : agent.inForce = some edge := by
  rw [inForce, outcome?, h, Option.bind_some, hOutcome]
  rfl

theorem inHand_of_settled : agent.inHand = message.toList := by
  rw [inHand, outcome?, h, Option.bind_some, hOutcome]
  rfl

end Settled

/-- From within a call no other is entered. -/
theorem enter_of_task {current : Task τ T R E} (h : agent.task = some current)
    (task : Option (Task τ T R E)) (slots : List (Option (Message T R))) :
    agent.enter task slots = agent := by
  simp only [enter, h]

theorem enter_of_none (agent : Agent τ T R E) (slots : List (Option (Message T R))) :
    agent.enter none slots = agent := by
  cases h : agent.task <;> simp only [enter, h]

theorem enter_of_idle (h : agent.task = none) (task : Task τ T R E)
    (slots : List (Option (Message T R))) :
    agent.enter (some task) slots =
      { agent with task := some task, slots := agent.slots ++ slots } := by
  simp only [enter, h]

/-- Entering a call alone makes no history. -/
theorem enter_history (agent : Agent τ T R E) (task : Option (Task τ T R E))
    (slots : List (Option (Message T R))) :
    (agent.enter task slots).performed = agent.performed ∧
      (agent.enter task slots).handed = agent.handed ∧
        (agent.enter task slots).held = agent.held := by
  unfold enter
  split <;> exact ⟨rfl, rfl, rfl⟩

/-- A call that has no message yet, or will hand out none, leaves what was taken as it is. -/
theorem taken_enter (agent : Agent τ T R E) {task : Option (Task τ T R E)}
    (h : ∀ rest, task = some rest → rest.outcome?.bind Prod.fst = none)
    (slots : List (Option (Message T R))) : (agent.enter task slots).taken = agent.taken := by
  cases hTask : agent.task with
  | some current => rw [enter_of_task hTask]
  | none =>
      cases task with
      | none => rw [enter_of_none]
      | some rest =>
          rw [enter_of_idle hTask, taken, taken, inHand_of_idle hTask]
          refine congrArg (agent.handed ++ ·) ?_
          have hMessage := h rest rfl
          cases hOutcome : rest.outcome? with
          | none => exact inHand_of_question rfl hOutcome
          | some outcome =>
              rw [hOutcome] at hMessage
              exact (inHand_of_settled rfl hOutcome).trans (congrArg Option.toList hMessage)

/-- A question alone settles nothing. -/
theorem Onward.ask (h : agent.task = none) {task : Task τ T R E} (hEffects : task.effects = [])
    (hOutcome : task.outcome? = none) : Onward agent (agent.enter (some task) []) := by
  rw [enter_of_idle h]
  constructor
  · rw [Agent.effects, Agent.effects, h]
    exact congrArg _ hEffects
  · rw [inForce_of_question rfl hOutcome, inForce_of_idle h]
  · rw [Agent.taken, Agent.taken, inHand_of_question rfl hOutcome, inHand_of_idle h]
  · exact List.append_nil _
  · exact id

/-- An end that is held is not lost. -/
theorem inForce_ne_none (h : agent.held ≠ none) : agent.inForce ≠ none := by
  rw [inForce]
  cases agent.outcome? with
  | none => exact h
  | some outcome => exact Option.some_ne_none outcome.2

variable [DecidableEq τ]

/-- A worker that is in no call does nothing. -/
theorem act_of_none (h : agent.task = none) (world : World τ (Message T R)) :
    agent.act worker world = (agent, world) := by
  simp only [act, h]

/-- A worker in a call performs its next act. -/
theorem act_of_some {task : Task τ T R E} (h : agent.task = some task)
    (world : World τ (Message T R)) :
    agent.act worker world =
      ((agent.record task).settle (world.act worker task).1, (world.act worker task).2) := by
  simp only [act, h]

/-- What is connected stays connected. -/
theorem held_of_act {world : World τ (Message T R)}
    (h : (agent.act worker world).1.held = none) : agent.held = none := by
  cases hTask : agent.task with
  | none =>
      rw [act_of_none hTask] at h
      exact h
  | some task =>
      rw [act_of_some hTask] at h
      cases task with
      | finish outcome => exact absurd h (Option.some_ne_none outcome.2)
      | _ => exact h

/-- A straight call performs its effects and then ends. What it has in hand it hands out then. -/
theorem strode (h : agent.Straight) (worker : Nat) (world : World τ (Message T R)) :
    Strode worker agent world (agent.act worker world).1 (agent.act worker world).2 ∧
      (agent.act worker world).1.Straight := by
  cases hTask : agent.task with
  | none =>
      rw [act_of_none hTask]
      exact ⟨.silent ⟨rfl, rfl, rfl, rfl, id⟩ rfl rfl, h⟩
  | some task =>
      have hStraight := h task hTask
      rw [act_of_some hTask]
      cases task with
      | finish outcome =>
          obtain ⟨message, edge⟩ := outcome
          refine ⟨.silent ⟨?_, ?_, ?_, rfl, fun hHeld => absurd hHeld (Option.some_ne_none _)⟩
            rfl rfl, straight_of_idle rfl⟩
          · rw [effects, effects, hTask]
            rfl
          · rw [inForce_of_idle rfl, inForce_of_settled hTask rfl]
            rfl
          · rw [taken, taken, inHand_of_idle rfl, inHand_of_settled hTask rfl]
            exact List.append_nil _
      | fail error =>
          refine ⟨.silent ⟨?_, ?_, ?_, rfl, id⟩ rfl rfl, straight_of_idle rfl⟩
          · rw [effects, effects, hTask]
            rfl
          · rw [inForce_of_idle rfl, inForce_of_question hTask rfl]
            rfl
          · rw [taken, taken, inHand_of_idle rfl, inHand_of_question hTask rfl]
            rfl
      | perform effect next =>
          have hOutcome : outcome? { agent with task := some (next ()) } = agent.outcome? := by
            rw [outcome?, outcome?, hTask]
            rfl
          refine ⟨.effect effect ⟨?_, ?_, ?_, rfl, id⟩ rfl rfl, ?_⟩
          · rw [effects, effects, hTask]
            exact List.append_assoc _ _ _
          · exact congrArg (fun outcome => (outcome.map Prod.snd).or agent.held) hOutcome
          · exact congrArg (fun outcome => agent.handed ++ outcome.elim [] (·.1.toList)) hOutcome
          · intro rest hRest
            cases hRest
            exact hStraight
      | claim channel kind next => exact hStraight.elim
      | take channel next => exact hStraight.elim
      | drain channel next => exact hStraight.elim
      | meet next => exact hStraight.elim

/-- Of several acts that nobody interrupts the first comes first. -/
theorem acts_of_some {task : Task τ T R E} (h : agent.task = some task)
    (world : World τ (Message T R)) (count : Nat) :
    acts worker (count + 1) (agent, world) = acts worker count
      ((agent.record task).settle (world.act worker task).1, (world.act worker task).2) := by
  rw [acts, act_of_some h]

/-- A call that nobody interrupts ends as its program does, and hands out what that returns. -/
theorem exists_acts {task : Task τ T R E} {world world' : World τ (Message T R)}
    {message : Option (Message T R)} {edge : E} (hTask : agent.task = some task)
    (hRun : World.run worker task world = (.returned (message, edge), world')) :
    ∃ count performed, acts worker count (agent, world) =
      ({ agent with
          task := none, held := some edge, performed, handed := agent.handed ++ message.toList },
        world') := by
  have hNext (agent : Agent τ T R E) (rest : Task τ T R E)
      (performed : List (Effect (Message T R))) :
      ({ agent with task := some rest, performed } : Agent τ T R E).task = some rest :=
    rfl
  induction task generalizing agent world with
  | finish outcome =>
      cases hRun
      exact ⟨1, agent.performed, acts_of_some hTask _ 0⟩
  | fail error => cases hRun
  | perform effect next ih =>
      obtain ⟨count, performed, hActs⟩ := ih () (hNext agent (next ()) _) hRun
      exact ⟨count + 1, performed, (acts_of_some hTask world count).trans hActs⟩
  | claim channel kind next ih =>
      obtain ⟨count, performed, hActs⟩ := ih _ (hNext agent _ agent.performed) hRun
      exact ⟨count + 1, performed, (acts_of_some hTask world count).trans hActs⟩
  | take channel next ih =>
      obtain ⟨count, performed, hActs⟩ := ih _ (hNext agent _ agent.performed) hRun
      exact ⟨count + 1, performed, (acts_of_some hTask world count).trans hActs⟩
  | drain channel next ih =>
      obtain ⟨count, performed, hActs⟩ := ih _ (hNext agent _ agent.performed) hRun
      exact ⟨count + 1, performed, (acts_of_some hTask world count).trans hActs⟩
  | meet next ih => cases hRun

end Agent

end Dataflow
