import Dataflow.Proofs.Traffic.Agent

/-! What holds of a channel in every reachable state. Each worker's books are in order, and what has
reached a worker, whether it was handed out, is in the hands of a pull or still lies in the mailbox,
is for each source what that source has forwarded. -/
namespace Dataflow

variable {τ T R : Type}

namespace World

variable {M : Type}

/-- An effect adds its delivery to the mailbox. -/
theorem box_perform {world : World τ M} {channel : UInt32} {target : Nat} {effect : Effect M}
    (h : deliveries channel target [effect] ≠ [] → (world.fabric.box? channel target).isSome)
    (worker : Nat) :
    (world.perform worker effect).fabric.box channel target =
      world.fabric.box channel target ++ deliveries channel target [effect] := by
  cases effect with
  | log level channel text => exact (List.append_nil _).symm
  | note sink event => exact (List.append_nil _).symm
  | deliver c t message =>
      change (world.fabric.deliver c t message).box channel target = _
      rw [Fabric.deliver_eq]
      by_cases hBox : c = channel ∧ t = target
      · obtain ⟨hChannel, hTarget⟩ := hBox
        subst hChannel
        subst hTarget
        have hDelivered : deliveries c t [Effect.deliver c t message] = [message] := by
          simp [deliveries, Effect.delivered?]
        rw [hDelivered] at h ⊢
        exact Fabric.box_editBox_self (h (List.cons_ne_nil _ _)) _
      · have hNothing : deliveries channel target [Effect.deliver c t message] = [] := by
          simp [deliveries, Effect.delivered?, hBox]
        rw [hNothing, List.append_nil]
        exact Fabric.box_editBox_of_ne hBox _

theorem perform_moved [DecidableEq τ] (world : World τ M) (worker : Nat) (effect : Effect M) :
    world.fabric.Moved (world.perform worker effect).fabric := by
  cases effect with
  | log level channel text => exact .rest
  | note sink event => exact .rest
  | deliver channel target message => exact .edit channel target (· ++ [message])

end World

namespace Agent

/-- An act of a straight call moves the fabric as its effect does. -/
theorem Strode.moved [DecidableEq τ] {E : Type} {worker : Nat} {before after : Agent τ T R E}
    {world world' : World τ (Message T R)} (h : Strode worker before world after world') :
    world.fabric.Moved world'.fabric := by
  cases h with
  | silent onward hPerformed hFabric =>
      rw [hFabric]
      exact .rest
  | effect effect onward hPerformed hWorld =>
      rw [hWorld]
      exact world.perform_moved worker effect

end Agent

namespace Traffic

/-- The books of a worker are in order. A worker without an end of the channel has none. -/
structure Sound (link : Link τ R) (workers worker : Nat) (agent : Agent τ T R (Exchange T R)) :
    Prop where
  blank : agent.inForce = none →
    agent.slots = [] ∧ ∀ target, agent.sent link.channel target = []
  books : ∀ exchange, agent.inForce = some exchange →
    Books link workers worker exchange (fun target => agent.sent link.channel target) agent.slots

variable {link : Link τ R} {workers worker : Nat} {before after agent : Agent τ T R (Exchange T R)}

/-- A worker is sound whose books have not changed. -/
theorem Sound.same (h : Sound link workers worker before)
    (same : Same link.channel before after) : Sound link workers worker after where
  blank hNone := by
    simp only [same.slots, same.sent]
    exact h.blank (same.inForce.symm.trans hNone)
  books exchange hSome := by
    simp only [same.slots, same.sent]
    exact h.books exchange (same.inForce.symm.trans hSome)

theorem Sound.start : Sound link workers worker ({} : Agent τ T R (Exchange T R)) where
  blank _ := ⟨rfl, fun _ => rfl⟩
  books exchange hSome := by cases hSome

/-- Everything that a worker ever pushed has either been sent or waits. -/
theorem Sound.ledger (h : Sound link workers worker agent) (target : Nat) :
    (agent.sent link.channel target).flatMap Message.timed ++ agent.waiting target =
      (records agent.slots).filter fun p => Hash.destination (link.hash p.2) workers = target := by
  rw [Agent.waiting]
  cases hInForce : agent.inForce with
  | none =>
      obtain ⟨hNoSlots, hNothing⟩ := h.blank hInForce
      rw [hNoSlots, hNothing target]
      rfl
  | some exchange => exact (h.books exchange hInForce).ledger target

/-- Whatever a worker sends to another went through one sender, and that marks it. -/
theorem Sound.stamped (h : Sound link workers worker agent) {target : Nat}
    (hTarget : target < workers) :
    agent.sent link.channel target = [] ∨
      ∃ (exchange : Exchange T R) (sender : Sender), agent.inForce = some exchange ∧
        worker < workers ∧ sender.source = UInt32.ofNat worker ∧
        sender.Stamped (agent.sent link.channel target) := by
  cases hInForce : agent.inForce with
  | none => exact Or.inl ((h.blank hInForce).2 target)
  | some exchange =>
      have books := h.books exchange hInForce
      have hLane : target < (exchange.fan.lanes.map Lane.sender).length := by
        rw [List.length_map]
        exact Nat.lt_of_lt_of_eq hTarget books.peers.symm
      obtain ⟨hSource, hStamped⟩ := books.numbered target _ (List.getElem?_eq_getElem hLane)
      exact Or.inr ⟨exchange, _, rfl, books.member, hSource, hStamped⟩

/-- What a worker has sent bears its number. -/
theorem Sound.source_of_mem (h : Sound link workers worker agent) {target : Nat}
    (hTarget : target < workers) {message : Message T R}
    (hMessage : message ∈ agent.sent link.channel target) :
    agent.inForce ≠ none ∧ worker < workers ∧ message.source = UInt32.ofNat worker := by
  rcases h.stamped hTarget with hNothing | ⟨exchange, sender, hInForce, hMember, hSource, hStamped⟩
  · rw [hNothing] at hMessage
    exact absurd hMessage List.not_mem_nil
  · rw [hInForce]
    exact ⟨Option.some_ne_none exchange, hMember, (hStamped.sources message hMessage).trans hSource⟩

section Enter

variable [DecidableEq T] [Husk R]

/-- Only an idle worker enters a call. -/
theorem entered_cases (link : Link τ R) (worker : Nat) (call : Call T R)
    (agent : Agent τ T R (Exchange T R)) :
    entered link worker call agent = agent ∨
      ∃ task, agent.task = none ∧ call.task? link worker agent.held = some task ∧
        entered link worker call agent = agent.enter (some task) call.slots := by
  cases hTask : agent.task with
  | some current => exact Or.inl (Agent.enter_of_task hTask _ _)
  | none =>
      rw [entered]
      cases hCall : call.task? link worker agent.held with
      | none => exact Or.inl (Agent.enter_of_none agent _)
      | some task => exact Or.inr ⟨task, rfl, rfl, rfl⟩

/-- Entering a call begins a phase. -/
theorem Phase.enter (h : Phase link worker agent) (call : Call T R) :
    Phase link worker (entered link worker call agent) := by
  rcases entered_cases link worker call agent with hSame | ⟨task, hIdle, hCall, hEntered⟩
  · rw [hSame]
    exact h
  · rw [hEntered, Agent.enter_of_idle hIdle]
    cases call with
    | connect config sink address =>
        have hTask := Option.some.inj hCall
        exact .claiming { index := worker, config, sink } address rfl (by rw [← hTask])
    | push slot =>
        obtain ⟨exchange, -, hTask⟩ := Option.map_eq_some_iff.mp hCall
        refine .straight fun rest hRest => ?_
        rw [← Option.some.inj hRest, ← hTask]
        exact exchange.straight_push slot
    | pull =>
        obtain ⟨exchange, hHeld, hTask⟩ := Option.map_eq_some_iff.mp hCall
        exact .taking exchange hHeld (by rw [← hTask])

/-- Of all calls only a push touches the books, and it does so at once: its acts are settled when it
begins. -/
theorem entered_books (link : Link τ R) (worker : Nat) (call : Call T R)
    (agent : Agent τ T R (Exchange T R)) :
    agent.Onward (entered link worker call agent) ∨
      ∃ slot exchange, agent.inForce = some exchange ∧
        (entered link worker call agent).inForce = some (exchange.pushed slot) ∧
        (∀ target, (entered link worker call agent).sent link.channel target =
          agent.sent link.channel target ++ deliveries link.channel target (exchange.acts slot)) ∧
        (entered link worker call agent).slots = agent.slots ++ [slot] := by
  rcases entered_cases link worker call agent with hSame | ⟨task, hIdle, hCall, hEntered⟩
  · rw [hSame]
    exact Or.inl ⟨rfl, rfl, rfl, rfl, id⟩
  · rw [hEntered]
    cases call with
    | connect config sink address =>
        rw [← Option.some.inj hCall]
        exact Or.inl (.ask hIdle rfl rfl)
    | pull =>
        obtain ⟨exchange, -, hTask⟩ := Option.map_eq_some_iff.mp hCall
        rw [← hTask, Exchange.pulling_eq]
        exact Or.inl (.ask hIdle rfl rfl)
    | push slot =>
        obtain ⟨exchange, hHeld, hTask⟩ := Option.map_eq_some_iff.mp hCall
        rw [← hTask, Agent.enter_of_idle hIdle]
        have hOutcome := exchange.outcome?_push (τ := τ) slot
        refine Or.inr ⟨slot, exchange, ?_, ?_, fun target => ?_, rfl⟩
        · rw [Agent.inForce_of_idle hIdle, hHeld]
        · exact Agent.inForce_of_settled rfl hOutcome
        · rw [Agent.sent, Agent.sent, Agent.effects_of_idle hIdle, ← deliveries_append,
            ← exchange.effects_push (τ := τ) slot]
          rfl

/-- No call has taken anything when it is entered. -/
theorem taken_entered (link : Link τ R) (worker : Nat) (call : Call T R)
    (agent : Agent τ T R (Exchange T R)) : (entered link worker call agent).taken = agent.taken := by
  refine agent.taken_enter (fun rest hRest => ?_) call.slots
  cases call with
  | connect config sink address =>
      rw [← Option.some.inj hRest]
      rfl
  | push slot =>
      obtain ⟨exchange, -, hTask⟩ := Option.map_eq_some_iff.mp hRest
      rw [← hTask, Exchange.outcome?_push]
      rfl
  | pull =>
      obtain ⟨exchange, -, hTask⟩ := Option.map_eq_some_iff.mp hRest
      rw [← hTask, Exchange.outcome?_pulling]
      rfl

/-- Entering a call keeps a worker sound. -/
theorem Sound.enter (h : Sound link workers worker agent) (call : Call T R) :
    Sound link workers worker (entered link worker call agent) := by
  rcases entered_books link worker call agent with
    onward | ⟨slot, exchange, hBefore, hAfter, hSent, hSlots⟩
  · exact h.same (.of_onward onward link.channel)
  · refine ⟨fun hNone => ?_, fun other hSome => ?_⟩
    · exact absurd (hAfter.symm.trans hNone) (Option.some_ne_none _)
    · have hOther := Option.some.inj (hAfter.symm.trans hSome)
      subst hOther
      simp only [hSlots, hSent]
      exact (h.books exchange hBefore).push slot

theorem inForce_of_entered {call : Call T R}
    (h : (entered link worker call agent).inForce ≠ none) : agent.inForce ≠ none := by
  rcases entered_books link worker call agent with onward | ⟨slot, exchange, hBefore, -⟩
  · rw [← onward.inForce]
    exact h
  · rw [hBefore]
    exact Option.some_ne_none exchange

end Enter

section Acted

variable [DecidableEq τ] {world world' : World τ (Message T R)}

/-- No act takes anything of the fabric back. -/
theorem Acted.moved (h : Acted link worker before world after world') :
    world.fabric.Moved world'.fabric := by
  cases h with
  | strode hStrode => exact hStrode.moved
  | take exchange hInForce same hPerformed hTaken hWorld =>
      rw [hWorld]
      exact .edit exchange.channel worker List.tail
  | claim hClaim hSent hSlots hPerformed hTaken hInForce => exact .claim hClaim

/-- A worker with an end of the channel has claimed the channel. -/
theorem Acted.claimed_of_inForce (h : Acted link worker before world after world')
    (hBefore : before.inForce ≠ none → world.fabric.Claimed link.channel worker)
    (hAfter : after.inForce ≠ none) : world'.fabric.Claimed link.channel worker := by
  cases hInForce : before.inForce with
  | some exchange => exact h.moved.claimed (hBefore (by rw [hInForce]; exact Option.some_ne_none _))
  | none =>
      rw [← hInForce] at hAfter
      cases h with
      | strode hStrode => exact absurd hStrode.onward.inForce hAfter
      | take exchange hTaking same hPerformed hTaken hWorld => exact absurd same.inForce hAfter
      | claim hClaim hSent hSlots hPerformed hTaken hGranted =>
          exact Fabric.claimed_of_claim hClaim

/-- Only the first claim of a worker can give it an end of the channel, so its books are still
blank. -/
theorem Acted.sound (h : Acted link worker before world after world')
    (hSound : Sound link world.fabric.workers worker before)
    (hClaimed : before.inForce ≠ none → world.fabric.Claimed link.channel worker) :
    Sound link world.fabric.workers worker after := by
  cases h with
  | strode hStrode => exact hSound.same (.of_onward hStrode.onward link.channel)
  | take exchange hTaking same hPerformed hTaken hWorld => exact hSound.same same
  | claim hClaim hSent hSlots hPerformed hTaken hGranted =>
      rcases hGranted with hSame | ⟨sink, capacity, fan, receiver, hFan, hFresh⟩
      · exact hSound.same ⟨hSame, hSent, hSlots⟩
      · have hNone : before.inForce = none := by
          -- With an end of the channel the worker had claimed it, and no claim is granted twice.
          by_contra hSome
          exact (hClaimed hSome).not_claim hClaim
        obtain ⟨hNoSlots, hNothing⟩ := hSound.blank hNone
        rw [Fabric.claim_workers hClaim] at hFan
        refine ⟨fun hAfter => ?_, fun exchange hSome => ?_⟩
        · exact absurd (hFresh.symm.trans hAfter) (Option.some_ne_none _)
        · have hExchange := Option.some.inj (hFresh.symm.trans hSome)
          subst hExchange
          simp only [hSlots, hSent, hNoSlots, hNothing]
          exact Books.fresh hFan (Fabric.claim_cases hClaim).1

end Acted

/-- All messages that have reached a worker: those it has taken out of its mailbox, and then those
that are still there. -/
def State.reached (channel : UInt32) (target : Nat) (state : State τ T R) : List (Message T R) :=
  (state.agent target).taken ++ state.world.fabric.box channel target

structure Invariant (link : Link τ R) (workers : Nat) (state : State τ T R) : Prop where
  count : state.world.fabric.workers = workers
  regular : state.world.fabric.Regular
  phase : ∀ worker, Phase link worker (state.agent worker)
  sound : ∀ worker, Sound link workers worker (state.agent worker)
  claimed : ∀ worker, (state.agent worker).inForce ≠ none →
    state.world.fabric.Claimed link.channel worker
  arrived : ∀ source target, source < workers → target < workers →
    stemming source (state.reached link.channel target) =
      (state.agent source).forwarded link.channel target
  origin : ∀ target, target < workers → ∀ message ∈ state.reached link.channel target,
    ∃ source, source < workers ∧ message.source = UInt32.ofNat source

namespace Invariant

variable {link : Link τ R} {workers : Nat} {state : State τ T R}

theorem start (link : Link τ R) (workers : Nat) (journal : Journal) :
    Invariant link workers
      (State.start { fabric := { workers }, journal } : State τ T R) where
  count := rfl
  regular channel found hFound := by cases hFound
  phase worker := .straight (Agent.straight_of_idle rfl)
  sound worker := Sound.start
  claimed worker hSome := absurd rfl hSome
  arrived source target hSource hTarget := rfl
  origin target hTarget message hMessage := absurd hMessage List.not_mem_nil

/-- What a source has forwarded to a target is numbered without a gap and marked. -/
theorem forwarded_stamped (h : Invariant link workers state) (source : Nat) {target : Nat}
    (hTarget : target < workers) :
    let forwarded := (state.agent source).forwarded link.channel target
    forwarded.map Message.seq = (List.range forwarded.length).map UInt64.ofNat ∧
      ∀ message ∈ forwarded, message.source = UInt32.ofNat source := by
  intro forwarded
  have sound := h.sound source
  have hPrefix : forwarded <+: (state.agent source).sent link.channel target := by
    rw [Agent.sent_eq]
    exact List.prefix_append _ _
  refine ⟨?_, fun message hMessage =>
    (sound.source_of_mem hTarget (hPrefix.subset hMessage)).2.2⟩
  rcases sound.stamped hTarget with hNothing | ⟨exchange, sender, -, -, -, hStamped⟩
  · rw [hNothing, List.prefix_nil] at hPrefix
    rw [hPrefix]
    rfl
  · exact hStamped.seqs_of_prefix hPrefix

variable [DecidableEq τ]

/-- Nothing reaches a worker but what another then puts into its mailbox. -/
theorem reached_act (h : Invariant link workers state) {worker target : Nat}
    (hTarget : target < workers) {after : Agent τ T R (Exchange T R)} {world' : World τ (Message T R)}
    (acted : Acted link worker (state.agent worker) state.world after world') :
    ∃ fresh,
      (state.turn worker after world').reached link.channel target =
        state.reached link.channel target ++ fresh ∧
      after.forwarded link.channel target =
        (state.agent worker).forwarded link.channel target ++ fresh ∧
      ∀ message ∈ fresh, worker < workers ∧ message.source = UInt32.ofNat worker := by
  have hTakenBy (hSame : after.taken = (state.agent worker).taken) :
      ((state.turn worker after world').agent target).taken = (state.agent target).taken :=
    State.forall_turn (P := fun other agent => agent.taken = (state.agent other).taken) hSame
      (fun _ _ => rfl) world' target
  have hForwarded (hSame : after.performed = (state.agent worker).performed) :
      after.forwarded link.channel target =
        (state.agent worker).forwarded link.channel target ++ [] := by
    rw [Agent.forwarded, hSame, List.append_nil, Agent.forwarded]
  cases acted with
  | strode hStrode =>
      cases hStrode with
      | silent onward hPerformed hFabric =>
          refine ⟨[], ?_, hForwarded hPerformed, fun _ hNone => absurd hNone List.not_mem_nil⟩
          rw [State.reached, hTakenBy onward.taken, State.turn_world, hFabric, List.append_nil,
            State.reached]
      | effect effect onward hPerformed hWorld =>
          have hSent : ∀ message ∈ deliveries link.channel target [effect],
              message ∈ (state.agent worker).sent link.channel target := by
            intro message hMessage
            rw [Agent.sent, ← onward.effects, ← Agent.sent, Agent.sent_eq, Agent.forwarded,
              hPerformed, deliveries_append]
            exact List.mem_append_left _ (List.mem_append_right _ hMessage)
          -- A sender has claimed the channel, and that claim made the mailboxes of all workers.
          have hBox : deliveries link.channel target [effect] ≠ [] →
              (state.world.fabric.box? link.channel target).isSome := by
            intro hSome
            obtain ⟨message, hMessage⟩ := List.exists_mem_of_ne_nil _ hSome
            have hInForce := ((h.sound worker).source_of_mem hTarget (hSent message hMessage)).1
            exact (h.claimed worker hInForce).box?_isSome h.regular (h.count.symm ▸ hTarget)
          refine ⟨deliveries link.channel target [effect], ?_, ?_, fun message hMessage => ?_⟩
          · rw [State.reached, hTakenBy onward.taken, State.turn_world, hWorld,
              World.box_perform hBox, ← List.append_assoc, State.reached]
          · rw [Agent.forwarded, hPerformed, deliveries_append, Agent.forwarded]
          · exact ((h.sound worker).source_of_mem hTarget (hSent message hMessage)).2
  | claim hClaim hSent hSlots hPerformed hTaken hGranted =>
      refine ⟨[], ?_, hForwarded hPerformed, fun _ hNone => absurd hNone List.not_mem_nil⟩
      rw [State.reached, hTakenBy hTaken, State.turn_world, Fabric.box_claim hClaim,
        List.append_nil, State.reached]
  | take exchange hInForce same hPerformed hTaken hWorld =>
      have hChannel := ((h.sound worker).books exchange hInForce).channel
      have hBox : world'.fabric = (state.world.fabric.take link.channel worker).2 := by
        rw [hWorld, ← hChannel]
        rfl
      refine ⟨[], ?_, hForwarded hPerformed, fun _ hNone => absurd hNone List.not_mem_nil⟩
      rw [List.append_nil, State.reached, State.reached, State.turn_world, hBox]
      by_cases hWorker : target = worker
      · subst hWorker
        rw [State.turn_self, hTaken, hChannel, Fabric.box_take_self, List.append_assoc]
        congr 1
        -- What is taken goes behind what was taken before, which is where it stood.
        change (state.world.fabric.box link.channel target).head?.toList ++ _ = _
        cases state.world.fabric.box link.channel target <;> rfl
      · rw [State.turn_of_ne hWorker, Fabric.take_eq]
        rw [Fabric.box_editBox_of_ne fun hBoth => hWorker hBoth.2.symm]

/-- What comes from one worker does not stem from another. Words tell all workers apart. -/
theorem stemming_fresh (hWorkers : workers < UInt32.size) {worker source : Nat}
    (hSource : source < workers) {fresh : List (Message T R)}
    (h : ∀ message ∈ fresh, worker < workers ∧ message.source = UInt32.ofNat worker) :
    stemming source fresh = if source = worker then fresh else [] := by
  by_cases hWorker : source = worker
  · rw [if_pos hWorker, hWorker]
    exact List.filter_eq_self.mpr fun message hMessage => decide_eq_true (h message hMessage).2
  · rw [if_neg hWorker]
    apply List.filter_eq_nil_iff.mpr
    intro message hMessage
    obtain ⟨hMember, hMark⟩ := h message hMessage
    rw [hMark, decide_eq_true_eq]
    intro hSame
    have hNumbers := congrArg UInt32.toNat hSame
    rw [UInt32.toNat_ofNat_of_lt' (Nat.lt_trans hMember hWorkers),
      UInt32.toNat_ofNat_of_lt' (Nat.lt_trans hSource hWorkers)] at hNumbers
    exact hWorker hNumbers.symm

/-- One act of a call. -/
theorem act (h : Invariant link workers state) (hWorkers : workers < UInt32.size) {worker : Nat}
    {after : Agent τ T R (Exchange T R)} {world' : World τ (Message T R)}
    (acted : Acted link worker (state.agent worker) state.world after world')
    (phase : Phase link worker after) :
    Invariant link workers (state.turn worker after world') where
  count := acted.moved.workers.trans h.count
  regular := acted.moved.regular h.regular
  phase := State.forall_turn phase (fun other _ => h.phase other) world'
  sound := by
    have hSelf : Sound link workers worker after := by
      rw [← h.count]
      exact acted.sound (h.count.symm ▸ h.sound worker) (h.claimed worker)
    exact State.forall_turn hSelf (fun other _ => h.sound other) world'
  claimed := by
    exact State.forall_turn
      (P := fun other agent => agent.inForce ≠ none → world'.fabric.Claimed link.channel other)
      (acted.claimed_of_inForce (h.claimed worker))
      (fun other _ hInForce => acted.moved.claimed (h.claimed other hInForce)) world'
  arrived := by
    intro source target hSource hTarget
    obtain ⟨fresh, hReached, hForwarded, hFresh⟩ := h.reached_act hTarget acted
    rw [hReached, stemming_append, h.arrived source target hSource hTarget,
      stemming_fresh hWorkers hSource hFresh]
    by_cases hOther : source = worker
    · subst hOther
      rw [State.turn_self, if_pos rfl, hForwarded]
    · rw [State.turn_of_ne hOther, if_neg hOther, List.append_nil]
  origin := by
    intro target hTarget message hMessage
    obtain ⟨fresh, hReached, -, hFresh⟩ := h.reached_act hTarget acted
    rw [hReached] at hMessage
    rcases List.mem_append.mp hMessage with hOld | hNew
    · exact h.origin target hTarget message hOld
    · exact ⟨worker, hFresh message hNew⟩

variable [DecidableEq T] [Husk R]

/-- Entering a call. Nothing is sent or received by that alone. -/
theorem call (h : Invariant link workers state) (worker : Nat) (call : Call T R) :
    Invariant link workers (state.step link (.call worker call)) := by
  have hPerformed : (entered link worker call (state.agent worker)).performed =
      (state.agent worker).performed :=
    ((state.agent worker).enter_history _ _).1
  have hHistory := State.forall_turn
    (P := fun other agent => agent.performed = (state.agent other).performed ∧
      agent.taken = (state.agent other).taken)
    ⟨hPerformed, taken_entered link worker call _⟩ (fun other _ => ⟨rfl, rfl⟩) state.world
  have hReached (target : Nat) : (state.step link (.call worker call)).reached link.channel target =
      state.reached link.channel target := by
    rw [State.reached, State.step, (hHistory target).2, State.turn_world, State.reached]
  exact {
    count := h.count
    regular := h.regular
    phase := State.forall_turn ((h.phase worker).enter call) (fun other _ => h.phase other) _
    sound := State.forall_turn ((h.sound worker).enter call) (fun other _ => h.sound other) _
    claimed := State.forall_turn
      (P := fun other agent =>
        agent.inForce ≠ none → state.world.fabric.Claimed link.channel other)
      (fun hInForce => h.claimed worker (inForce_of_entered hInForce))
      (fun other _ => h.claimed other) _
    arrived := by
      intro source target hSource hTarget
      rw [hReached, h.arrived source target hSource hTarget, State.step, Agent.forwarded,
        Agent.forwarded, (hHistory source).1]
    origin := by
      intro target hTarget message hMessage
      rw [hReached] at hMessage
      exact h.origin target hTarget message hMessage }

/-- One move of any worker. -/
theorem step (h : Invariant link workers state) (hWorkers : workers < UInt32.size) (move : Move T R) :
    Invariant link workers (state.step link move) := by
  cases move with
  | call worker call => exact h.call worker call
  | act worker =>
      obtain ⟨acted, phase⟩ := (h.phase worker).acted state.world
      exact h.act hWorkers acted phase

/-- Any run, whatever the workers do and however their acts interleave. -/
theorem run (h : Invariant link workers state) (hWorkers : workers < UInt32.size)
    (moves : List (Move T R)) : Invariant link workers (state.run link moves) := by
  induction moves generalizing state with
  | nil => exact h
  | cons move rest ih => exact ih (h.step hWorkers move)

/-- The invariant holds after any moves on a new fabric. -/
theorem of_run {fabric : Fabric τ (Message T R)}
    (hFabric : Fabric.create workers = .ok fabric) (link : Link τ R) (journal : Journal)
    (moves : List (Move T R)) :
    Invariant link workers ((State.start { fabric, journal }).run link moves) := by
  obtain ⟨-, hWorkers, hNew⟩ := Fabric.create_eq hFabric
  subst hNew
  exact (Invariant.start link workers journal).run hWorkers moves

end Invariant

end Traffic

end Dataflow
