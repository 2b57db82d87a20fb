import Dataflow.Proofs.FanOut.Bounds
import Dataflow.Proofs.Medium.Audit

/-! What a failing destination can lose. A push that is cut short has consumed the records up to the
one whose buffer could not be sent. All consumed records were offered to their destination or wait
for it, so none are lost but those of the batches on which their own destination failed. -/
namespace Dataflow

variable {ε σ T R : Type}

namespace FanOut

/-- Untouched are the records behind the one that failed. -/
theorem deal_snd (medium : Medium ε σ (Message T R)) (time : T) (records : List R)
    (state : FanOut T R × σ) :
    (deal medium time records state).2 = records.drop (progress medium time records state) := by
  induction records generalizing state with
  | nil => rfl
  | cons record rest ih =>
      cases hFault : (put medium time record state).fault with
      | none => rw [deal_cons_of_none hFault, ih, progress_cons_of_none hFault, List.drop_succ_cons]
      | some error =>
          rw [deal_cons_of_fault hFault, progress_cons_of_fault hFault, List.drop_succ_cons,
            List.drop_zero]

/-- Either all records are dealt, or the buffer of one of them cannot be sent and dealing ends
there. -/
theorem deal_cases (medium : Medium ε σ (Message T R)) (time : T) (records : List R)
    (state : FanOut T R × σ) :
    ((deal medium time records state).1.fault = none ∧
      progress medium time records state = records.length) ∨
    ∃ before record rest error, records = before ++ record :: rest ∧
      (deal medium time before state).1.fault = none ∧
      (put medium time record (deal medium time before state).1.state).fault = some error ∧
      (deal medium time records state).1.fault = some error ∧
      progress medium time records state = before.length + 1 := by
  induction records generalizing state with
  | nil => exact Or.inl ⟨rfl, rfl⟩
  | cons record rest ih =>
      cases hFault : (put medium time record state).fault with
      | some error =>
          refine Or.inr ⟨[], record, rest, error, rfl, rfl, hFault, ?_, ?_⟩
          · rw [deal_cons_of_fault hFault, hFault]
          · exact progress_cons_of_fault hFault rest
      | none =>
          rw [deal_cons_of_none hFault, progress_cons_of_none hFault]
          rcases ih (put medium time record state).state with
            ⟨hNone, hAll⟩ | ⟨before, last, others, error, hRest, hBefore, hPut, hDeal, hCount⟩
          · exact Or.inl ⟨hNone, congrArg (· + 1) hAll⟩
          · refine Or.inr ⟨record :: before, last, others, error, congrArg (record :: ·) hRest,
              ?_, ?_, hDeal, congrArg (· + 1) hCount⟩
            · rw [deal_cons_of_none hFault]
              exact hBefore
            · rw [deal_cons_of_none hFault]
              exact hPut

/-- A record meets a fault only when the buffer that it fills cannot be sent. -/
theorem flush_of_put_fault {medium : Medium ε σ (Message T R)} {time : T} {record : R}
    {fan : FanOut T R} {state : σ} {error : ε}
    (h : (put medium time record (fan, state)).fault = some error) :
    (flush medium time (fan.route record) (fan.append (fan.route record) record, state)).fault =
      some error := by
  rw [put_eq] at h
  dsimp only at h
  split at h
  · exact h
  · cases h

section Distribute

variable [DecidableEq T]

variable [Husk R]

/-- What becomes of a message that is pushed to a distributor with several destinations. `count` is
the number of its records that are consumed. -/
inductive Fate (medium : Medium ε σ (Message T R)) (message : Message T R)
    (state : FanOut T R × σ) (offered : Offered ε (FanOut T R × σ) (Message T R)) (count : Nat) :
    Prop
  /-- All records are consumed. -/
  | whole (hFault : offered.fault = none) (hCount : count = message.data.length)
      (hSlot : offered.slot = some { message with data := [] })
  /-- The buffers of the time before cannot be sent. No record is consumed. -/
  | refused (error : ε) (hTurn : (turn medium message.time state).fault = some error)
      (hFault : offered.fault = some error) (hCount : count = 0)
      (hSlot : offered.slot = some message)
  /-- A record fills its buffer, which cannot be sent. The records up to this one are consumed and
  leave husks, and those behind it are untouched. -/
  | interrupted (before rest : List R) (record : R) (error : ε)
      (hTurn : (turn medium message.time state).fault = none)
      (hData : message.data = before ++ record :: rest)
      (hBefore : (deal medium message.time before (retimed medium message.time state)).1.fault =
        none)
      (hFlush :
        let reached := (deal medium message.time before (retimed medium message.time state)).1.state
        let target := reached.1.route record
        (flush medium message.time target (reached.1.append target record, reached.2)).fault =
          some error)
      (hFault : offered.fault = some error) (hCount : count = before.length + 1)
      (hSlot : offered.slot = some { message with data := (before ++ [record]).map husk ++ rest })

/-- What becomes of a message depends on where the first fault is met. -/
theorem distribute_fate (medium : Medium ε σ (Message T R)) (message : Message T R)
    (state : FanOut T R × σ) :
    Fate medium message state (distribute medium message state)
      (consumed medium message state) := by
  cases hTurn : (turn medium message.time state).fault with
  | some error =>
      rw [distribute_of_fault hTurn, consumed_of_fault hTurn]
      exact .refused error hTurn hTurn rfl rfl
  | none =>
      rw [consumed_of_none hTurn]
      have hDealt : (distribute medium message state).toAttempt =
          (deal medium message.time message.data (retimed medium message.time state)).1 :=
        distribute_of_none hTurn
      have hFault := congrArg Attempt.fault hDealt
      have hSnd := deal_snd medium message.time message.data (retimed medium message.time state)
      rcases deal_cases medium message.time message.data (retimed medium message.time state) with
        ⟨hNone, hAll⟩ | ⟨before, record, rest, error, hData, hBefore, hPut, hDeal, hCount⟩
      · refine .whole (hFault.trans hNone) hAll ?_
        simp only [retimed] at hNone
        simp only [distribute, hTurn, hNone]
      · refine .interrupted before rest record error hTurn hData hBefore
          (flush_of_put_fault hPut) (hFault.trans hDeal) hCount ?_
        have hUntouched : (deal medium message.time message.data
            (retimed medium message.time state)).2 = rest := by
          rw [hSnd, hCount, hData, List.append_cons, List.drop_left' (by simp)]
        have hTaken : message.data.take (message.data.length - rest.length) =
            before ++ [record] := by
          rw [hData, List.append_cons, List.length_append, Nat.add_sub_cancel, List.take_left]
        simp only [retimed] at hDeal hUntouched
        simp only [distribute, hTurn, hDeal, hUntouched, hTaken]

/-- The message that a failing push leaves in the slot has lost none of its length, and the records
that were not consumed are as they were. -/
theorem Fate.left {medium : Medium ε σ (Message T R)} {message : Message T R}
    {state : FanOut T R × σ} {offered : Offered ε (FanOut T R × σ) (Message T R)} {count : Nat}
    (h : Fate medium message state offered count) (hFault : offered.fault ≠ none) :
    ∃ left, offered.slot = some left ∧ left.time = message.time ∧ left.seq = message.seq ∧
      left.source = message.source ∧ left.length = message.length ∧
      left.data.drop count = message.data.drop count := by
  cases h with
  | whole hNone hCount hSlot => exact absurd hNone hFault
  | refused error hTurn hError hCount hSlot => exact ⟨message, hSlot, rfl, rfl, rfl, rfl, rfl⟩
  | interrupted before rest record error hTurn hData hBefore hFlush hError hCount hSlot =>
      refine ⟨_, hSlot, rfl, rfl, rfl, ?_, ?_⟩
      · simp [Message.length, hData]
      · rw [hCount, hData, List.append_cons before record rest, List.drop_left' (by simp),
          List.drop_left' (by simp)]

/-- The records that a push consumes, each with the time of its message. -/
def intake (medium : Medium ε σ (Message T R)) (slot : Option (Message T R))
    (state : FanOut T R × σ) : List (T × R) :=
  slot.toList.flatMap fun message => message.timed.take (consumed medium message state)

def intakeAll (medium : Medium ε σ (Message T R)) :
    List (Option (Message T R)) → FanOut T R × σ → List (T × R)
  | [], _ => []
  | slot :: rest, state =>
    intake medium slot state ++ intakeAll medium rest (push medium slot state).state

end Distribute

section Books

variable {medium : Medium ε σ (Message T R)} {offers : σ → Nat → List (Message T R)}

variable [DecidableEq T] [Husk R]

/-- A push enters exactly what it consumes into the books, also if it is cut short. -/
theorem push_ledger_intake (h : medium.Remembers offers) {fan : FanOut T R}
    (hSettled : fan.Settled) (hPeers : 0 < fan.peers) (hMany : fan.peers ≠ 1)
    (slot : Option (Message T R)) (state : σ) (dst : Nat) :
    ledger offers (push medium slot (fan, state)).state dst =
      ledger offers (fan, state) dst ++
        (intake medium slot (fan, state)).filter fun p => fan.route p.2 = dst := by
  cases slot with
  | none =>
      rw [push_none medium hMany, close_ledger h hSettled]
      exact (List.append_nil _).symm
  | some message =>
      rw [push_some medium message hMany, distribute_consumes h hSettled hPeers, intake,
        Option.toList_some, List.flatMap_singleton]

theorem pushAll_ledger_intake (h : medium.Remembers offers) {hash : R → UInt64} {peers : Nat}
    (hPeers : 0 < peers) (hMany : peers ≠ 1) (state : FanOut T R × σ)
    (hShape : state.1.hash = hash ∧ state.1.peers = peers) (hSettled : state.1.Settled)
    (slots : List (Option (Message T R))) (dst : Nat) :
    ledger offers (pushAll medium slots state) dst =
      ledger offers state dst ++
        (intakeAll medium slots state).filter fun p => Hash.destination (hash p.2) peers = dst := by
  induction slots generalizing state with
  | nil => exact (List.append_nil _).symm
  | cons slot rest ih =>
      obtain ⟨fan, state⟩ := state
      obtain ⟨rfl, rfl⟩ := hShape
      rw [pushAll_cons, ih _ (push_shape medium slot fan state) (push_settled hSettled slot state),
        push_ledger_intake h hSettled hPeers hMany, intakeAll, List.filter_append,
        List.append_assoc]
      rfl

end Books

section Through

variable {ε' σ' : Type} {raise : ε → ε'} {divert : Option Sink → Option Sink} {view : σ → σ'}
  {medium : Medium ε σ (Message T R)} {medium' : Medium ε' σ' (Message T R)}

/-- How far the records get is seen through the map. -/
theorem progress_through (h : medium.Morphism raise divert view medium') (time : T) (records : List R)
    (state : FanOut T R × σ) :
    progress medium' time records (through divert view state) =
      progress medium time records state := by
  induction records generalizing state with
  | nil => rfl
  | cons record rest ih =>
      simp only [progress, put_through h, Attempt.map, ih]
      cases (put medium time record state).fault <;> rfl

variable [DecidableEq T]

/-- How many records of a message are consumed is seen through the map. -/
theorem consumed_through (h : medium.Morphism raise divert view medium') (message : Message T R)
    (state : FanOut T R × σ) :
    consumed medium' message (through divert view state) = consumed medium message state := by
  have hStart : retimed medium' message.time (through divert view state) =
      through divert view (retimed medium message.time state) := by
    simp only [retimed, turn_through h]
    rfl
  simp only [consumed, turn_through h, Attempt.map, hStart, progress_through h]
  cases (turn medium message.time state).fault <;> rfl

variable [Husk R]

/-- What a run consumes does not depend on how its states are seen. -/
theorem intakeAll_view (h : medium.Morphism raise id view medium') (slots : List (Option (Message T R)))
    (state : FanOut T R × σ) :
    intakeAll medium' slots (state.1, view state.2) = intakeAll medium slots state := by
  induction slots generalizing state with
  | nil => rfl
  | cons slot rest ih =>
      have hStart : through id view state = (state.1, view state.2) :=
        Prod.ext (redirect_id _) rfl
      have hPush := pushAll_view h [slot] state
      simp only [pushAll, List.foldl_cons, List.foldl_nil] at hPush
      rw [intakeAll, intakeAll, hPush, ih, intake, intake, ← hStart]
      simp only [consumed_through h]

end Through

section Delivery

variable [DecidableEq T] [Husk R] {medium : Medium ε σ (Message T R)}

/-- What no move breaks is kept by any pushes. -/
theorem Kept.pushAll {P : FanOut T R × σ → Prop} (h : Kept medium P)
    (slots : List (Option (Message T R))) (state : FanOut T R × σ) (hP : P state) :
    P (FanOut.pushAll medium slots state) := by
  induction slots generalizing state with
  | nil => exact hP
  | cons slot rest ih => exact ih _ (h.push slot state.1 state.2 hP)

theorem peers_pushAll (medium : Medium ε σ (Message T R)) (slots : List (Option (Message T R)))
    (state : FanOut T R × σ) : (pushAll medium slots state).1.peers = state.1.peers :=
  ((kept_shape medium state.1.hash state.1.capacity state.1.peers).pushAll slots state
    ⟨rfl, rfl, rfl⟩).2.2

/-- A destination receives each message that it accepts, and no other. -/
theorem delivered_accepted {delivered : σ → Nat → List (Message T R)}
    (h : medium.Delivers delivered) (slots : List (Option (Message T R))) (fan : FanOut T R)
    (start : σ) (dst : Nat) :
    let reached := (pushAll medium.audited slots (fan, start, [])).2
    delivered reached.1 dst = delivered start dst ++ acceptedAt dst reached.2 := by
  have hKept : Kept medium.audited fun state : FanOut T R × σ × List (Incident ε (Message T R)) =>
      delivered state.2.1 dst = delivered start dst ++ acceptedAt dst state.2.2 := by
    apply kept_of_surroundings (P := fun state : σ × List (Incident ε (Message T R)) =>
      delivered state.1 dst = delivered start dst ++ acceptedAt dst state.2)
    · intro sink event state hState
      change delivered (medium.note sink event state.1) dst = _
      rw [h.note, hState]
      change _ = _ ++ acceptedAt dst (state.2 ++ [.noted sink event])
      rw [acceptedAt_append]
      simp [acceptedAt, attemptsAt]
    · intro target slot state hState
      change delivered (medium.offer target slot state.1).state dst = _ ++
        acceptedAt dst (state.2 ++ [.offered target slot (medium.offer target slot state.1).fault])
      rw [h.offer, hState, acceptedAt_append, List.append_assoc]
      congr 2
      rw [acceptedAt, attemptsAt_offered]
      by_cases hDst : dst = target
      · cases (medium.offer target slot state.1).fault <;> cases slot <;> simp [hDst]
      · simp [hDst]
  exact hKept.pushAll slots (fan, start, []) (by simp [acceptedAt, attemptsAt])

/-- Whatever the destinations do, after any pushes, failed ones included: for each destination the
records consumed so far that the hash sends there are, in order, those of the batches it was
offered, whether or not it failed on them, and then those that wait for it. So what is not delivered
and does not wait was in a batch on which the destination itself failed, and a destination that
never failed misses nothing. What a destination keeps of its offers has each accepted batch once. Of
a message that is pushed next, all records are consumed if the push succeeds, none if the buffers of
the time before cannot be sent, and else those up to the one whose buffer cannot be sent; the slot
then holds the message still, with the records behind that one untouched. That the run is audited
has no bearing on it. -/
theorem losses_accounted (medium : Medium ε σ (Message T R)) {senders : List Sender}
    {capacity : Nat} {hash : R → UInt64} {fan : FanOut T R}
    (hCreate : create senders capacity hash = .ok fan) (hMany : 2 ≤ senders.length)
    (slots : List (Option (Message T R))) (start : σ) :
    let run := pushAll medium.audited slots (fan, start, [])
    let after := run.1
    let incidents := run.2.2
    let consumedFor (dst : Nat) := (intakeAll medium slots (fan, start)).filter fun p =>
      (hash p.2).toNat % senders.length = dst
    let timed (batches : List (Message T R)) := batches.flatMap Message.timed
    pushAll medium slots (fan, start) = (after, run.2.1) ∧
    (∀ dst, consumedFor dst =
      timed (offeredTo dst incidents) ++ after.waiting dst) ∧
    (∀ dst, (consumedFor dst).Perm
      (timed (acceptedAt dst incidents) ++ timed (failedAt dst incidents) ++ after.waiting dst)) ∧
    (∀ dst, failedAt dst incidents = [] →
      consumedFor dst = timed (acceptedAt dst incidents) ++ after.waiting dst) ∧
    (∀ delivered, medium.Delivers delivered → ∀ dst,
      delivered run.2.1 dst = delivered start dst ++ acceptedAt dst incidents) ∧
    ∀ message,
      let offered := push medium (some message) (after, run.2.1)
      let count := consumed medium message (after, run.2.1)
      Fate medium message (after, run.2.1) offered count ∧
        (offered.fault ≠ none → ∃ left, offered.slot = some left ∧ left.time = message.time ∧
          left.seq = message.seq ∧ left.source = message.source ∧
          left.length = message.length ∧ left.data.drop count = message.data.drop count) := by
  intro run after incidents consumedFor timed
  obtain ⟨hSenders, hHash, hTime, hBuffer⟩ := create_ok hCreate
  have hPeers : fan.peers = senders.length := by rw [← hSenders, List.length_map, peers]
  have hSettled : fan.Settled := ⟨fun _ => hBuffer, fun _ => hTime⟩
  have hConsumed (dst : Nat) : consumedFor dst =
      timed (offeredTo dst incidents) ++ after.waiting dst := by
    have hLedger := pushAll_ledger_intake medium.audited_remembers (by omega) (by omega)
      (fan, start, []) ⟨hHash, hPeers⟩ hSettled slots dst
    have hNothing : ledger (fun state dst => offeredTo dst state.2)
        (fan, start, ([] : List (Incident ε (Message T R)))) dst = [] := by
      rw [ledger, waiting_of_buffer_nil (hBuffer dst)]
      rfl
    have hView := intakeAll_view medium.audited_morphism slots (fan, start, [])
    rw [hNothing, List.nil_append, ← hView] at hLedger
    exact hLedger.symm
  have hReached : after.peers ≠ 1 := by
    have hCount : after.peers = fan.peers := peers_pushAll medium.audited slots (fan, start, [])
    omega
  refine ⟨pushAll_view medium.audited_morphism slots (fan, start, []), hConsumed, fun dst => ?_,
    fun dst hNever => ?_, fun delivered hDelivers => ?_, fun message => ?_⟩
  · rw [hConsumed]
    have hBatches := (attempts_perm dst incidents).flatMap_right Message.timed
    rw [List.flatMap_append] at hBatches
    exact hBatches.append_right _
  · rw [hConsumed, attempts_eq_accepted hNever]
  · exact delivered_accepted hDelivers slots fan start
  · intro offered count
    have hFate : Fate medium message (after, run.2.1) offered count := by
      dsimp only [offered]
      rw [push_some medium message hReached]
      exact distribute_fate medium message (after, run.2.1)
    exact ⟨hFate, hFate.left⟩

/-- After the pushes of `cutShort` the second message is pushed again, with more records. Now the
buffer of the odd numbers fills up and cannot be sent. -/
theorem losses_accounted_cutShort :
    let run := pushAll fickle.audited cutShort (twoWay, 1, [])
    let again : Message Nat UInt64 := { time := 2, data := [5, 7, 9, 11] }
    ((intakeAll fickle cutShort (twoWay, 1)).filter fun p => p.2.toNat % 2 = 0) =
        (failedAt 0 run.2.2).flatMap Message.timed ∧
      failedAt 0 run.2.2 = [{ time := 1, data := [0, 2] }] ∧
      Fate fickle again (run.1, run.2.1) (push fickle (some again) (run.1, run.2.1)) 3 := by
  intro run again
  have hCreate : create [{ channel := 7, source := 0, target := 0, sink := none },
      { channel := 7, source := 0, target := 1, sink := none }] 3 id = .ok twoWay := rfl
  have hMany : 2 ≤ 2 := Nat.le_refl 2
  obtain ⟨-, hConsumed, -, -, -, hFate⟩ := losses_accounted fickle hCreate hMany cutShort 1
  have hFailed : failedAt 0 run.2.2 = [{ time := 1, data := [0, 2] }] := by decide +kernel
  have hAttempts : offeredTo 0 run.2.2 = failedAt 0 run.2.2 := by decide +kernel
  have hWaiting : run.1.waiting 0 = [] := by decide +kernel
  have hCount : consumed fickle again (run.1, run.2.1) = 3 := by decide +kernel
  refine ⟨?_, hFailed, hCount ▸ (hFate again).1⟩
  rw [← hAttempts, ← List.append_nil (List.flatMap _ _), ← hWaiting]
  exact hConsumed 0

end Delivery

end FanOut

end Dataflow
