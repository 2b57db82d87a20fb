import Dataflow.Proofs.FanOut.Moves

/-! The books of a distributor. For every destination, the records offered to it so far followed by
those that wait for it are the records consumed so far that the hash sends there. No assumption is
made about what a destination does with an offer. -/
namespace Dataflow

variable {ε σ T R : Type}

/-- `offers state dst` is everything that has been offered to a destination before `state` was
reached, whatever became of it. Empty slots leave no trace. -/
structure Medium.Remembers {M : Type} (medium : Medium ε σ M) (offers : σ → Nat → List M) :
    Prop where
  note : ∀ sink event state dst, offers (medium.note sink event state) dst = offers state dst
  offer : ∀ target slot state dst, offers (medium.offer target slot state).state dst =
    offers state dst ++ if dst = target then slot.toList else []

variable {medium : Medium ε σ (Message T R)} {offers : σ → Nat → List (Message T R)}

theorem Medium.Remembers.noteTo (h : medium.Remembers offers) (sink : Option Sink)
    (event : Event) (state : σ) (dst : Nat) :
    offers (medium.noteTo sink event state) dst = offers state dst := by
  cases sink with
  | none => rfl
  | some sink => exact h.note sink event state dst

/-- A sender adds the stamped message to the offers of its target, and nothing to the others. -/
theorem Medium.Remembers.push (h : medium.Remembers offers) (target : Nat)
    (message : Message T R) (sender : Sender) (state : σ) (dst : Nat) :
    offers (Sender.push medium target (some message) (sender, state)).state.2 dst =
      offers state dst ++ if dst = target then [sender.stamp message] else [] := by
  change offers (medium.offer target (some (sender.stamp message)) _).state dst = _
  rw [h.offer, h.noteTo]
  rfl

/-- Stamps do not show in the records or their time. -/
@[simp] theorem Sender.timed_stamp (sender : Sender) (message : Message T R) :
    (sender.stamp message).timed = message.timed :=
  rfl

namespace FanOut

def waiting (fan : FanOut T R) (dst : Nat) : List (T × R) :=
  fan.current.elim [] fun time => (fan.buffer dst).map fun record => (time, record)

/-- What was offered to a destination and what waits for it, in order. -/
def ledger (offers : σ → Nat → List (Message T R)) (state : FanOut T R × σ) (dst : Nat) :
    List (T × R) :=
  (offers state.2 dst).flatMap Message.timed ++ state.1.waiting dst

/-- Nothing waits without a time, and with a single destination there is never a time. -/
structure Settled (fan : FanOut T R) : Prop where
  idle : fan.current = none → ∀ dst, fan.buffer dst = []
  direct : fan.peers = 1 → fan.current = none

/-- What waits in a buffer waits under the current time. -/
theorem waiting_of_current {fan : FanOut T R} {time : T} (h : fan.current = some time)
    (dst : Nat) : fan.waiting dst = (fan.buffer dst).map fun record => (time, record) := by
  rw [waiting, h, Option.elim_some]

theorem waiting_of_buffer_nil {fan : FanOut T R} {dst : Nat} (h : fan.buffer dst = []) :
    fan.waiting dst = [] := by
  rw [waiting, h]
  cases fan.current <;> rfl

/-- Where there is no destination nothing waits. -/
theorem buffer_of_le {fan : FanOut T R} {dst : Nat} (h : fan.peers ≤ dst) :
    fan.buffer dst = [] := by
  rw [buffer, List.getElem?_eq_none h, Option.map_none, Option.getD_none]

theorem buffer_set (fan : FanOut T R) (target : Nat) (sender : Sender) (dst : Nat) :
    buffer { fan with lanes := fan.lanes.set target ⟨sender, []⟩ } dst =
      if dst = target then [] else fan.buffer dst := by
  simp only [buffer, List.getElem?_set]
  by_cases h : dst = target
  · subst h
    by_cases hLt : dst < fan.lanes.length <;> simp [hLt]
  · simp [h, Ne.symm h]

/-- A record is put behind those of its own buffer. -/
theorem buffer_append {fan : FanOut T R} {target : Nat} (h : target < fan.peers) (record : R)
    (dst : Nat) :
    (fan.append target record).buffer dst =
      fan.buffer dst ++ if dst = target then [record] else [] := by
  simp only [buffer, append, List.getElem?_modify]
  by_cases hDst : dst = target
  · subst hDst
    rw [List.getElem?_eq_getElem h]
    simp
  · simp [hDst, Ne.symm hDst]

/-- The hash, the capacity and the number of destinations never change. -/
theorem kept_shape (medium : Medium ε σ (Message T R)) (hash : R → UInt64) (capacity n : Nat) :
    Kept medium fun state =>
      state.1.hash = hash ∧ state.1.capacity = capacity ∧ state.1.peers = n where
  rebuffer fan state lanes current hSenders h := by
    have hLength := congrArg List.length hSenders
    rw [List.length_map, List.length_map] at hLength
    exact ⟨h.1, h.2.1, hLength.trans h.2.2⟩
  send fan state dst lane message hLane h := by
    refine ⟨h.1, h.2.1, ?_⟩
    simpa only [peers, List.length_set] using h.2.2
  pass fan state dst h := h

theorem route_of_shape {fan fan' : FanOut T R} (hHash : fan'.hash = fan.hash)
    (hPeers : fan'.peers = fan.peers) (record : R) : fan'.route record = fan.route record := by
  rw [route, route, hHash, hPeers]

theorem flush_current (medium : Medium ε σ (Message T R)) (time : T) (dst : Nat)
    (fan : FanOut T R) (state : σ) :
    (flush medium time dst (fan, state)).state.1.current = fan.current := by
  rcases flush_cases medium time dst fan state with ⟨-, hFlush⟩ | ⟨sender, -, -, hFlush⟩
  · rw [hFlush]
  · rw [hFlush]

/-- A flush empties its own buffer, whether or not it fails. -/
theorem flush_buffer (medium : Medium ε σ (Message T R)) (time : T) (target : Nat)
    (fan : FanOut T R) (state : σ) (dst : Nat) :
    (flush medium time target (fan, state)).state.1.buffer dst =
      if dst = target then [] else fan.buffer dst := by
  rcases flush_cases medium time target fan state with ⟨hEmpty, hFlush⟩ | ⟨sender, -, -, hFlush⟩
  · rw [hFlush]
    split
    · rename_i h
      rw [h, hEmpty]
    · rfl
  · rw [hFlush]
    exact buffer_set fan target _ dst

/-- A flush moves what waits from the buffer to the offers, with or without a fault. -/
theorem flush_ledger (h : medium.Remembers offers) {fan : FanOut T R} {time : T}
    (hTime : fan.current = some time) (target : Nat) (state : σ) (dst : Nat) :
    ledger offers (flush medium time target (fan, state)).state dst =
      ledger offers (fan, state) dst := by
  rcases flush_cases medium time target fan state with ⟨-, hFlush⟩ | ⟨sender, -, hLane, hFlush⟩
  · rw [hFlush]
  · simp only [hFlush, ledger]
    rw [h.push, List.flatMap_append, List.append_assoc, waiting_of_current hTime]
    congr 1
    by_cases hDst : dst = target
    · subst hDst
      rw [waiting_of_buffer_nil (by rw [buffer_set, if_pos rfl]), if_pos rfl,
        List.flatMap_singleton, List.append_nil]
      rfl
    · rw [if_neg hDst, waiting, buffer_set, if_neg hDst]
      simp [hTime]

theorem flushEach_current (medium : Medium ε σ (Message T R)) (time : T) (targets : List Nat)
    (fan : FanOut T R) (state : σ) :
    (flushEach medium time targets (fan, state)).state.1.current = fan.current := by
  induction targets generalizing fan state with
  | nil => rfl
  | cons target rest ih =>
      rw [← flush_current medium time target fan state]
      unfold flushEach
      cases hFault : (flush medium time target (fan, state)).fault with
      | none =>
          rw [Attempt.andThen_of_none hFault]
          exact ih _ _
      | some error => rw [Attempt.andThen_of_fault hFault]

/-- Flushing moves records from the buffers to the offers and loses none. -/
theorem flushEach_ledger (h : medium.Remembers offers) {fan : FanOut T R} {time : T}
    (hTime : fan.current = some time) (targets : List Nat) (state : σ) (dst : Nat) :
    ledger offers (flushEach medium time targets (fan, state)).state dst =
      ledger offers (fan, state) dst := by
  induction targets generalizing fan state with
  | nil => rfl
  | cons target rest ih =>
      rw [← flush_ledger h hTime target state dst]
      unfold flushEach
      cases hFault : (flush medium time target (fan, state)).fault with
      | none =>
          rw [Attempt.andThen_of_none hFault]
          exact ih ((flush_current medium time target fan state).trans hTime) _
      | some error => rw [Attempt.andThen_of_fault hFault]

/-- If no destination fails, the buffers of all given destinations are empty afterwards. -/
theorem flushEach_buffer {time : T} {targets : List Nat} {fan : FanOut T R} {state : σ}
    (h : (flushEach medium time targets (fan, state)).fault = none) (dst : Nat) :
    (flushEach medium time targets (fan, state)).state.1.buffer dst =
      if dst ∈ targets then [] else fan.buffer dst := by
  induction targets generalizing fan state with
  | nil => rfl
  | cons target rest ih =>
      unfold flushEach at h ⊢
      cases hFault : (flush medium time target (fan, state)).fault with
      | none =>
          rw [Attempt.andThen_of_none hFault] at h ⊢
          rw [ih h, flush_buffer]
          by_cases hRest : dst ∈ rest <;> by_cases hDst : dst = target <;> simp [hRest, hDst]
      | some error =>
          rw [Attempt.andThen_of_fault hFault, hFault] at h
          cases h

theorem flushBuffers_of_current {fan : FanOut T R} {time : T} (h : fan.current = some time)
    (medium : Medium ε σ (Message T R)) (state : σ) :
    flushBuffers medium (fan, state) =
      flushEach medium time (List.range fan.peers) (fan, state) := by
  simp only [flushBuffers, h]

theorem flushBuffers_of_none {fan : FanOut T R} (h : fan.current = none)
    (medium : Medium ε σ (Message T R)) (state : σ) :
    flushBuffers medium (fan, state) = { state := (fan, state) } := by
  simp only [flushBuffers, h]

/-- Flushing does not touch the time. -/
theorem flushBuffers_current (medium : Medium ε σ (Message T R)) (fan : FanOut T R) (state : σ) :
    (flushBuffers medium (fan, state)).state.1.current = fan.current := by
  cases hTime : fan.current with
  | none => rw [flushBuffers_of_none hTime, hTime]
  | some time => rw [flushBuffers_of_current hTime, flushEach_current, hTime]

/-- Flushing all buffers leaves the books as they are. -/
theorem flushBuffers_ledger (h : medium.Remembers offers) (fan : FanOut T R) (state : σ)
    (dst : Nat) :
    ledger offers (flushBuffers medium (fan, state)).state dst =
      ledger offers (fan, state) dst := by
  cases hTime : fan.current with
  | none => rw [flushBuffers_of_none hTime]
  | some time => rw [flushBuffers_of_current hTime, flushEach_ledger h hTime]

/-- Once all buffers have been sent nothing waits. -/
theorem flushBuffers_buffer {fan : FanOut T R} (hSettled : fan.Settled) {state : σ}
    (h : (flushBuffers medium (fan, state)).fault = none) (dst : Nat) :
    (flushBuffers medium (fan, state)).state.1.buffer dst = [] := by
  cases hTime : fan.current with
  | none =>
      rw [flushBuffers_of_none hTime]
      exact hSettled.idle hTime dst
  | some time =>
      rw [flushBuffers_of_current hTime] at h ⊢
      rw [flushEach_buffer h]
      split
      · rfl
      · rename_i hRange
        rw [List.mem_range, Nat.not_lt] at hRange
        exact buffer_of_le hRange

theorem put_shape (medium : Medium ε σ (Message T R)) (time : T) (record : R) (fan : FanOut T R)
    (state : σ) :
    (put medium time record (fan, state)).state.1.hash = fan.hash ∧
      (put medium time record (fan, state)).state.1.peers = fan.peers := by
  have h := (kept_shape medium fan.hash fan.capacity fan.peers).put time record fan state
    ⟨rfl, rfl, rfl⟩
  exact ⟨h.1, h.2.2⟩

/-- Buffering a record does not touch the time. -/
theorem put_current (medium : Medium ε σ (Message T R)) (time : T) (record : R)
    (fan : FanOut T R) (state : σ) :
    (put medium time record (fan, state)).state.1.current = fan.current := by
  rw [put_eq]
  dsimp only
  split
  · exact flush_current medium time _ _ state
  · rfl

/-- A record that is put enters the books of its own destination and of no other. -/
theorem put_ledger (h : medium.Remembers offers) {fan : FanOut T R} {time : T}
    (hTime : fan.current = some time) (hPeers : 0 < fan.peers) (record : R) (state : σ)
    (dst : Nat) :
    ledger offers (put medium time record (fan, state)).state dst =
      ledger offers (fan, state) dst ++
        if dst = fan.route record then [(time, record)] else [] := by
  have hRoute : fan.route record < fan.peers := Hash.destination_lt _ hPeers
  have hFilled : (fan.append (fan.route record) record).current = some time := hTime
  have hAppend : ledger offers (fan.append (fan.route record) record, state) dst =
      ledger offers (fan, state) dst ++
        if dst = fan.route record then [(time, record)] else [] := by
    simp only [ledger, waiting_of_current hFilled, waiting_of_current hTime, List.append_assoc]
    rw [buffer_append hRoute, List.map_append]
    split <;> rfl
  rw [put_eq]
  dsimp only
  split
  · rw [flush_ledger h hFilled, hAppend]
  · exact hAppend

/-- How many records are dealt up to the first whose buffer cannot be sent, that one included. -/
def progress (medium : Medium ε σ (Message T R)) (time : T) : List R → FanOut T R × σ → Nat
  | [], _ => 0
  | record :: rest, state =>
    let attempt := put medium time record state
    match attempt.fault with
    | none => progress medium time rest attempt.state + 1
    | some _ => 1

theorem progress_cons_of_none {medium : Medium ε σ (Message T R)} {time : T} {record : R}
    {state : FanOut T R × σ} (h : (put medium time record state).fault = none) (rest : List R) :
    progress medium time (record :: rest) state =
      progress medium time rest (put medium time record state).state + 1 := by
  simp only [progress, h]

theorem progress_cons_of_fault {medium : Medium ε σ (Message T R)} {time : T} {record : R}
    {state : FanOut T R × σ} {error : ε} (h : (put medium time record state).fault = some error)
    (rest : List R) : progress medium time (record :: rest) state = 1 := by
  simp only [progress, h]

/-- If nothing fails all records are reached. -/
theorem progress_of_none {medium : Medium ε σ (Message T R)} {time : T} {records : List R}
    {state : FanOut T R × σ} (h : (deal medium time records state).1.fault = none) :
    progress medium time records state = records.length := by
  induction records generalizing state with
  | nil => rfl
  | cons record rest ih =>
      cases hFault : (put medium time record state).fault with
      | none =>
          rw [deal_cons_of_none hFault] at h
          rw [progress_cons_of_none hFault, ih h, List.length_cons]
      | some error =>
          rw [deal_cons_of_fault hFault, hFault] at h
          cases h

/-- The records that are dealt, up to the one that met a fault if one did, enter the books. That one
is in its buffer before the flush that fails. -/
theorem deal_ledger (h : medium.Remembers offers) {fan : FanOut T R} {time : T}
    (hTime : fan.current = some time) (hPeers : 0 < fan.peers) (records : List R) (state : σ)
    (dst : Nat) :
    ledger offers (deal medium time records (fan, state)).1.state dst =
      ledger offers (fan, state) dst ++
        ((records.take (progress medium time records (fan, state))).filter fun record =>
          fan.route record = dst).map fun record => (time, record) := by
  induction records generalizing fan state with
  | nil => exact (List.append_nil _).symm
  | cons record rest ih =>
      have hPut := put_ledger h hTime hPeers record state dst
      cases hFault : (put medium time record (fan, state)).fault with
      | some error =>
          rw [deal_cons_of_fault hFault, progress_cons_of_fault hFault, hPut]
          by_cases hDst : dst = fan.route record <;> simp [hDst, eq_comm]
      | none =>
          obtain ⟨hHash, hCount⟩ := put_shape medium time record fan state
          have hCurrent := (put_current medium time record fan state).trans hTime
          have hLedger := ih hCurrent (hCount ▸ hPeers)
            (put medium time record (fan, state)).state.2
          rw [deal_cons_of_none hFault, progress_cons_of_none hFault, hLedger, hPut,
            List.append_assoc]
          simp only [route_of_shape hHash hCount]
          by_cases hDst : dst = fan.route record <;> simp [hDst, eq_comm]

/-- Dealing does not touch the time. -/
theorem deal_current (medium : Medium ε σ (Message T R)) (time : T) (records : List R)
    (fan : FanOut T R) (state : σ) :
    (deal medium time records (fan, state)).1.state.1.current = fan.current := by
  induction records generalizing fan state with
  | nil => rfl
  | cons record rest ih =>
      rw [← put_current medium time record fan state]
      cases hFault : (put medium time record (fan, state)).fault with
      | none =>
          rw [deal_cons_of_none hFault]
          exact ih _ _
      | some error => rw [deal_cons_of_fault hFault]

/-- Passing empty slots on changes nothing of the distributor. -/
theorem closeEach_fan (medium : Medium ε σ (Message T R)) (targets : List Nat) (fan : FanOut T R)
    (state : σ) : (closeEach medium targets (fan, state)).state.1 = fan := by
  induction targets generalizing state with
  | nil => rfl
  | cons target rest ih =>
      rw [closeEach_cons]
      cases hFault : (medium.offer target none state).fault with
      | none => exact ih _
      | some error => rfl

/-- Empty slots are no offers of messages. -/
theorem closeEach_offers (h : medium.Remembers offers) (targets : List Nat) (fan : FanOut T R)
    (state : σ) (dst : Nat) :
    offers (closeEach medium targets (fan, state)).state.2 dst = offers state dst := by
  have hOffer (target : Nat) (state : σ) :
      offers (medium.offer target none state).state dst = offers state dst := by
    rw [h.offer]
    split <;> exact List.append_nil _
  induction targets generalizing state with
  | nil => rfl
  | cons target rest ih =>
      rw [closeEach_cons]
      cases hFault : (medium.offer target none state).fault with
      | none => exact (ih _).trans (hOffer target state)
      | some error => exact hOffer target state

/-- As long as nothing waits, the time may change. -/
theorem ledger_current {fan : FanOut T R} {dst : Nat} (h : fan.buffer dst = [])
    (current : Option T) (state : σ) :
    ledger offers ({ fan with current }, state) dst = ledger offers (fan, state) dst := by
  have hBuffer : buffer { fan with current } dst = [] := h
  simp only [ledger, waiting_of_buffer_nil h, waiting_of_buffer_nil hBuffer]

theorem close_of_none {fan : FanOut T R} {state : σ}
    (h : (flushBuffers medium (fan, state)).fault = none) :
    close medium (fan, state) =
      closeEach medium (List.range (flushBuffers medium (fan, state)).state.1.peers)
        ({ (flushBuffers medium (fan, state)).state.1 with current := none },
          (flushBuffers medium (fan, state)).state.2) := by
  rw [close, Attempt.andThen_of_none h]

/-- If a buffer cannot be sent no empty slot is passed on. -/
theorem close_of_fault {fan : FanOut T R} {state : σ} {error : ε}
    (h : (flushBuffers medium (fan, state)).fault = some error) :
    close medium (fan, state) = flushBuffers medium (fan, state) := by
  rw [close, Attempt.andThen_of_fault h]

/-- An empty slot leaves the books as they are. -/
theorem close_ledger (h : medium.Remembers offers) {fan : FanOut T R} (hSettled : fan.Settled)
    (state : σ) (dst : Nat) :
    ledger offers (close medium (fan, state)).state dst = ledger offers (fan, state) dst := by
  cases hFault : (flushBuffers medium (fan, state)).fault with
  | some error => rw [close_of_fault hFault, flushBuffers_ledger h]
  | none =>
      rw [close_of_none hFault, ledger, closeEach_fan, closeEach_offers h]
      exact (ledger_current (flushBuffers_buffer hSettled hFault dst) none _).trans
        (flushBuffers_ledger h fan state dst)

/-- After an empty slot nothing waits. -/
theorem close_buffer {fan : FanOut T R} (hSettled : fan.Settled) {state : σ}
    (h : (close medium (fan, state)).fault = none) (dst : Nat) :
    (close medium (fan, state)).state.1.buffer dst = [] := by
  cases hFault : (flushBuffers medium (fan, state)).fault with
  | some error =>
      rw [close_of_fault hFault, hFault] at h
      cases h
  | none =>
      rw [close_of_none hFault, closeEach_fan]
      exact flushBuffers_buffer hSettled hFault dst

/-- Where the time has been forgotten nothing waits. -/
theorem close_idle {fan : FanOut T R} (hSettled : fan.Settled) (state : σ)
    (hTime : (close medium (fan, state)).state.1.current = none) (dst : Nat) :
    (close medium (fan, state)).state.1.buffer dst = [] := by
  cases hFault : (flushBuffers medium (fan, state)).fault with
  | none =>
      rw [close_of_none hFault, closeEach_fan]
      exact flushBuffers_buffer hSettled hFault dst
  | some error =>
      rw [close_of_fault hFault, flushBuffers_current] at hTime
      rw [flushBuffers_of_none hTime] at hFault
      cases hFault

variable [DecidableEq T]

/-- A message of another time makes all buffers go out. -/
theorem turn_of_other {fan : FanOut T R} {time : T} (h : fan.current.any (· ≠ time) = true)
    (medium : Medium ε σ (Message T R)) (state : σ) :
    turn medium time (fan, state) = flushBuffers medium (fan, state) := by
  rw [turn, if_pos h]

/-- A message of the same time makes nothing go out. -/
theorem turn_of_same {fan : FanOut T R} {time : T} (h : fan.current.any (· ≠ time) = false)
    (medium : Medium ε σ (Message T R)) (state : σ) :
    turn medium time (fan, state) = { state := (fan, state) } := by
  rw [turn, h]
  rfl

/-- Neither the hash nor the number of destinations ever changes. -/
theorem turn_shape (medium : Medium ε σ (Message T R)) (time : T) (fan : FanOut T R) (state : σ) :
    (turn medium time (fan, state)).state.1.hash = fan.hash ∧
      (turn medium time (fan, state)).state.1.peers = fan.peers := by
  have h := (kept_shape medium fan.hash fan.capacity fan.peers).stable.turn time fan state
    ⟨rfl, rfl, rfl⟩
  exact ⟨h.1, h.2.2⟩

/-- Once the buffers of another time are gone, the new time may be set. -/
theorem turn_ledger (h : medium.Remembers offers) {fan : FanOut T R} (hSettled : fan.Settled)
    {time : T} {state : σ} (hFault : (turn medium time (fan, state)).fault = none) (dst : Nat) :
    ledger offers ({ (turn medium time (fan, state)).state.1 with current := some time },
        (turn medium time (fan, state)).state.2) dst = ledger offers (fan, state) dst := by
  cases hOther : fan.current.any (· ≠ time) with
  | true =>
      rw [turn_of_other hOther] at hFault ⊢
      rw [ledger_current (flushBuffers_buffer hSettled hFault dst)]
      exact flushBuffers_ledger h fan state dst
  | false =>
      rw [turn_of_same hOther]
      cases hTime : fan.current with
      | none => exact ledger_current (hSettled.idle hTime dst) (some time) state
      | some current =>
          rw [hTime] at hOther
          have hSame : current = time := by simpa using hOther
          rw [← hSame, ← hTime]

/-- If the buffers of another time cannot all be sent, those that are left keep their time. -/
theorem turn_ledger_of_fault (h : medium.Remembers offers) {fan : FanOut T R} {time : T}
    {state : σ} {error : ε} (hFault : (turn medium time (fan, state)).fault = some error)
    (dst : Nat) :
    ledger offers (turn medium time (fan, state)).state dst = ledger offers (fan, state) dst := by
  cases hOther : fan.current.any (· ≠ time) with
  | true =>
      rw [turn_of_other hOther]
      exact flushBuffers_ledger h fan state dst
  | false =>
      rw [turn_of_same hOther] at hFault
      cases hFault

/-- The state in which the records of a message are dealt. -/
def retimed (medium : Medium ε σ (Message T R)) (time : T) (state : FanOut T R × σ) :
    FanOut T R × σ :=
  let turned := turn medium time state
  ({ turned.state.1 with current := some time }, turned.state.2)

/-- How many records of a message are consumed when it is pushed to a distributor with several
destinations: none if the buffers of the time before cannot be sent. -/
def consumed (medium : Medium ε σ (Message T R)) (message : Message T R)
    (state : FanOut T R × σ) : Nat :=
  match (turn medium message.time state).fault with
  | some _ => 0
  | none => progress medium message.time message.data (retimed medium message.time state)

/-- If the buffers of the time before cannot be sent no record is consumed. -/
theorem consumed_of_fault {medium : Medium ε σ (Message T R)} {message : Message T R}
    {state : FanOut T R × σ} {error : ε} (h : (turn medium message.time state).fault = some error) :
    consumed medium message state = 0 := by
  simp only [consumed, h]

theorem consumed_of_none {medium : Medium ε σ (Message T R)} {message : Message T R}
    {state : FanOut T R × σ} (h : (turn medium message.time state).fault = none) :
    consumed medium message state =
      progress medium message.time message.data (retimed medium message.time state) := by
  simp only [consumed, h]

variable [Husk R]

/-- A message that meets no fault is consumed whole. -/
theorem consumed_of_distributed {medium : Medium ε σ (Message T R)} {message : Message T R}
    {state : FanOut T R × σ} (h : (distribute medium message state).fault = none) :
    consumed medium message state = message.data.length := by
  cases hTurn : (turn medium message.time state).fault with
  | some error =>
      rw [distribute_of_fault hTurn, hTurn] at h
      cases h
  | none =>
      have hDealt := congrArg Attempt.fault (distribute_of_none hTurn)
      rw [consumed_of_none hTurn]
      exact progress_of_none (hDealt.symm.trans h)

/-- What is consumed of a message enters the books, and nothing else. -/
theorem distribute_consumes (h : medium.Remembers offers) {fan : FanOut T R}
    (hSettled : fan.Settled) (hPeers : 0 < fan.peers) (message : Message T R) (state : σ)
    (dst : Nat) :
    ledger offers (distribute medium message (fan, state)).state dst =
      ledger offers (fan, state) dst ++
        (message.timed.take (consumed medium message (fan, state))).filter fun p =>
          fan.route p.2 = dst := by
  cases hTurn : (turn medium message.time (fan, state)).fault with
  | some error =>
      rw [distribute_of_fault hTurn, consumed_of_fault hTurn, turn_ledger_of_fault h hTurn]
      exact (List.append_nil _).symm
  | none =>
      obtain ⟨hHash, hCount⟩ := turn_shape medium message.time fan state
      let start := retimed medium message.time (fan, state)
      have hTime : start.1.current = some message.time := rfl
      have hRoute (record : R) : start.1.route record = fan.route record :=
        route_of_shape hHash hCount record
      have hDeal := deal_ledger h hTime (hCount ▸ hPeers) message.data start.2 dst
      have hTurned : ledger offers start dst = ledger offers (fan, state) dst :=
        turn_ledger h hSettled hTurn dst
      rw [distribute_of_none hTurn, consumed_of_none hTurn, Message.timed, ← List.map_take,
        List.filter_map]
      simp only [hRoute] at hDeal
      exact hDeal.trans (congrArg (· ++ _) hTurned)

/-- A message that is distributed without a fault brings all its records into the books. -/
theorem distribute_ledger (h : medium.Remembers offers) {fan : FanOut T R} (hSettled : fan.Settled)
    (hPeers : 0 < fan.peers) (message : Message T R) {state : σ}
    (hFault : (distribute medium message (fan, state)).fault = none) (dst : Nat) :
    ledger offers (distribute medium message (fan, state)).state dst =
      ledger offers (fan, state) dst ++ message.timed.filter fun p => fan.route p.2 = dst := by
  have hAll : message.timed.length = consumed medium message (fan, state) := by
    rw [consumed_of_distributed hFault, Message.timed, List.length_map]
  rw [distribute_consumes h hSettled hPeers, List.take_of_length_le (Nat.le_of_eq hAll)]

theorem push_shape (medium : Medium ε σ (Message T R)) (slot : Option (Message T R))
    (fan : FanOut T R) (state : σ) :
    (push medium slot (fan, state)).state.1.hash = fan.hash ∧
      (push medium slot (fan, state)).state.1.peers = fan.peers := by
  have h := (kept_shape medium fan.hash fan.capacity fan.peers).push slot fan state ⟨rfl, rfl, rfl⟩
  exact ⟨h.1, h.2.2⟩

/-- A push that goes well enters exactly the records of its slot into the books, each with the time
of its message and under the destination that the hash gives it. -/
theorem push_ledger (h : medium.Remembers offers) {fan : FanOut T R} (hSettled : fan.Settled)
    (hPeers : 0 < fan.peers) (slot : Option (Message T R)) {state : σ}
    (hFault : (push medium slot (fan, state)).fault = none) (dst : Nat) :
    ledger offers (push medium slot (fan, state)).state dst =
      ledger offers (fan, state) dst ++
        (slot.toList.flatMap Message.timed).filter fun p => fan.route p.2 = dst := by
  by_cases hDirect : fan.peers = 1
  · obtain ⟨lane, hLanes⟩ := List.length_eq_one_iff.mp hDirect
    have hTime := hSettled.direct hDirect
    have hRoute (record : R) : fan.route record = 0 := by
      rw [route, Hash.destination, hDirect, Nat.mod_one]
    rw [push_direct medium slot hLanes]
    simp only [ledger, waiting, hTime, Option.elim_none, List.append_nil, hRoute]
    cases slot with
    | none =>
        change (offers (medium.offer 0 none state).state dst).flatMap Message.timed = _
        rw [h.offer]
        split <;> simp
    | some message =>
        rw [h.push, List.flatMap_append]
        by_cases hDst : dst = 0
        · rw [if_pos hDst, hDst, List.filter_eq_self.mpr fun _ _ => decide_eq_true rfl]
          simp only [Option.toList_some, List.flatMap_singleton, Sender.timed_stamp]
        · simp [hDst, Ne.symm hDst]
  · cases slot with
    | none =>
        rw [push_none medium hDirect] at hFault ⊢
        rw [close_ledger h hSettled]
        exact (List.append_nil _).symm
    | some message =>
        rw [push_some medium message hDirect] at hFault ⊢
        rw [distribute_ledger h hSettled hPeers message hFault]
        simp

/-- A distributor that has met a message has a time. -/
theorem distribute_current (medium : Medium ε σ (Message T R)) (message : Message T R)
    (fan : FanOut T R) (state : σ) :
    (distribute medium message (fan, state)).state.1.current ≠ none := by
  cases hTurn : (turn medium message.time (fan, state)).fault with
  | some error =>
      rw [distribute_of_fault hTurn]
      cases hOther : fan.current.any (· ≠ message.time) with
      | false =>
          rw [turn_of_same hOther] at hTurn
          cases hTurn
      | true =>
          rw [turn_of_other hOther, flushBuffers_current]
          intro hTime
          rw [hTime] at hOther
          cases hOther
  | none =>
      rw [distribute_of_none hTurn, deal_current]
      exact Option.some_ne_none _

/-- Being settled outlasts every push, also one that meets a fault. -/
theorem push_settled {fan : FanOut T R} (hSettled : fan.Settled) (slot : Option (Message T R))
    (state : σ) : (push medium slot (fan, state)).state.1.Settled := by
  obtain ⟨-, hCount⟩ := push_shape medium slot fan state
  by_cases hDirect : fan.peers = 1
  · obtain ⟨lane, hLanes⟩ := List.length_eq_one_iff.mp hDirect
    have hTime := hSettled.direct hDirect
    rw [push_direct medium slot hLanes]
    refine ⟨fun _ dst => ?_, fun _ => hTime⟩
    have hBuffer := hSettled.idle hTime dst
    rw [buffer, hLanes] at hBuffer
    rw [← hBuffer, buffer]
    cases dst <;> rfl
  · refine ⟨fun hTime dst => ?_, fun hOne => absurd (hCount.symm.trans hOne) hDirect⟩
    cases slot with
    | none =>
        rw [push_none medium hDirect] at hTime ⊢
        exact close_idle hSettled state hTime dst
    | some message =>
        rw [push_some medium message hDirect] at hTime
        exact absurd hTime (distribute_current medium message fan state)

/-- After an empty slot nothing waits. -/
theorem push_none_buffer {fan : FanOut T R} (hSettled : fan.Settled) {state : σ}
    (hFault : (push medium none (fan, state)).fault = none) (dst : Nat) :
    (push medium none (fan, state)).state.1.buffer dst = [] := by
  by_cases hDirect : fan.peers = 1
  · obtain ⟨-, hCount⟩ := push_shape medium none fan state
    have hAfter : (push medium none (fan, state)).state.1.Settled :=
      push_settled hSettled none state
    exact hAfter.idle (hAfter.direct (hCount.trans hDirect)) dst
  · rw [push_none medium hDirect] at hFault ⊢
    exact close_buffer hSettled hFault dst

end FanOut

end Dataflow
