import Dataflow.FanOut

/-! What a distributor does, move by move. Whatever slot it takes, it only fills and empties
buffers, sends messages through the sender of a lane, and passes empty slots on. A property that
none of these moves breaks is kept by `FanOut.push`, with or without a fault. -/
namespace Dataflow

variable {ε σ T R : Type}

namespace Attempt

/-- Where there are no faults nothing fails. -/
theorem fault_eq_none (attempt : Attempt Empty σ) : attempt.fault = none := by
  cases hFault : attempt.fault with
  | none => rfl
  | some error => exact error.elim

/-- After an attempt that went well the next one is made. -/
theorem andThen_of_none {first : Attempt ε σ} (h : first.fault = none)
    (next : σ → Attempt ε σ) : first.andThen next = next first.state := by
  simp only [andThen, h]

/-- After a fault the next attempt is not made. -/
theorem andThen_of_fault {first : Attempt ε σ} {error : ε} (h : first.fault = some error)
    (next : σ → Attempt ε σ) : first.andThen next = first := by
  simp only [andThen, h]

/-- A property of states survives two attempts in a row. -/
theorem andThen_state {P : σ → Prop} {first : Attempt ε σ} {next : σ → Attempt ε σ}
    (hFirst : P first.state) (hNext : ∀ state, P state → P (next state).state) :
    P (first.andThen next).state := by
  cases hFault : first.fault with
  | none =>
      rw [andThen_of_none hFault]
      exact hNext _ hFirst
  | some error =>
      rw [andThen_of_fault hFault]
      exact hFirst

end Attempt

namespace FanOut

/-- The records that wait for a destination. There are none if there is no such destination. -/
def buffer (fan : FanOut T R) (dst : Nat) : List R := (fan.lanes[dst]?.map Lane.buffer).getD []

theorem buffer_of_lane {fan : FanOut T R} {dst : Nat} {lane : Lane R}
    (h : fan.lanes[dst]? = some lane) : fan.buffer dst = lane.buffer := by
  rw [buffer, h, Option.map_some, Option.getD_some]

theorem buffered?_of_lt {fan : FanOut T R} {dst : Nat} (h : dst < fan.peers) :
    fan.buffered? dst = some (fan.buffer dst).length := by
  rw [buffered?, buffer, List.getElem?_eq_getElem h, Option.map_some, Option.map_some,
    Option.getD_some]

/-- A new distributor has the given senders, and nothing waits in it. -/
theorem create_ok {senders : List Sender} {capacity : Nat} {hash : R → UInt64} {fan : FanOut T R}
    (h : create senders capacity hash = .ok fan) :
    fan.lanes.map Lane.sender = senders ∧ fan.hash = hash ∧ fan.current = none ∧
      ∀ dst, fan.buffer dst = [] := by
  unfold create at h
  split at h
  · cases h
  · split at h
    · cases h
    · have hFan := Except.ok.inj h
      subst hFan
      refine ⟨?_, rfl, rfl, fun dst => ?_⟩
      · rw [List.map_map]
        exact List.map_id senders
      · rw [buffer, List.getElem?_map, Option.map_map]
        cases senders[dst]? <;> rfl

/-- Without a destination or with no capacity there is no distributor. -/
theorem create_capacity {senders : List Sender} {capacity : Nat} {hash : R → UInt64}
    {fan : FanOut T R} (h : create senders capacity hash = .ok fan) :
    senders ≠ [] ∧ 0 < capacity ∧ fan.capacity = capacity := by
  unfold create at h
  split at h
  · cases h
  · rename_i hSenders
    split at h
    · cases h
    · rename_i hCapacity
      have hFan := Except.ok.inj h
      subst hFan
      exact ⟨hSenders, Nat.pos_of_ne_zero hCapacity, rfl⟩

/-- A flush does nothing at an empty buffer. Otherwise all that waits goes out in one message. -/
theorem flush_cases (medium : Medium ε σ (Message T R)) (time : T) (dst : Nat)
    (fan : FanOut T R) (state : σ) :
    (fan.buffer dst = [] ∧ flush medium time dst (fan, state) = { state := (fan, state) }) ∨
    ∃ sender, fan.buffer dst ≠ [] ∧ fan.lanes[dst]? = some ⟨sender, fan.buffer dst⟩ ∧
      let offered := Sender.push medium dst (some { time, data := fan.buffer dst }) (sender, state)
      flush medium time dst (fan, state) =
        { fault := offered.fault
          state := ({ fan with lanes := fan.lanes.set dst ⟨offered.state.1, []⟩ },
            offered.state.2) } := by
  cases hLane : fan.lanes[dst]? with
  | none =>
      refine Or.inl ⟨?_, ?_⟩
      · rw [buffer, hLane, Option.map_none, Option.getD_none]
      · simp only [flush, hLane]
  | some lane =>
      obtain ⟨sender, waiting⟩ := lane
      rw [buffer_of_lane hLane]
      cases waiting with
      | nil =>
          refine Or.inl ⟨rfl, ?_⟩
          simp only [flush, hLane]
      | cons record records =>
          refine Or.inr ⟨sender, List.cons_ne_nil _ _, rfl, ?_⟩
          simp only [flush, hLane, Message.pushAt_fst, Message.pushAt_snd]

/-- A record that waits changes no sender. -/
theorem senders_append (fan : FanOut T R) (dst : Nat) (record : R) :
    (fan.append dst record).lanes.map Lane.sender = fan.lanes.map Lane.sender := by
  apply List.ext_getElem?
  intro i
  rw [List.getElem?_map, List.getElem?_map, append, List.getElem?_modify, Option.map_eq_map,
    Option.map_map]
  congr 1
  funext lane
  by_cases h : dst = i <;> simp [h]

theorem put_eq (medium : Medium ε σ (Message T R)) (time : T) (record : R) (fan : FanOut T R)
    (state : σ) :
    put medium time record (fan, state) =
      let dst := fan.route record
      let filled := fan.append dst record
      if (filled.buffered? dst).any (filled.capacity ≤ ·) then flush medium time dst (filled, state)
      else { state := (filled, state) } :=
  rfl

/-- A record that goes well is followed by the others. -/
theorem deal_cons_of_none {medium : Medium ε σ (Message T R)} {time : T} {record : R}
    {state : FanOut T R × σ} (h : (put medium time record state).fault = none) (rest : List R) :
    deal medium time (record :: rest) state =
      deal medium time rest (put medium time record state).state := by
  simp only [deal, h]

/-- A record that meets a fault leaves those behind it untouched. -/
theorem deal_cons_of_fault {medium : Medium ε σ (Message T R)} {time : T} {record : R}
    {state : FanOut T R × σ} {error : ε} (h : (put medium time record state).fault = some error)
    (rest : List R) :
    deal medium time (record :: rest) state = (put medium time record state, rest) := by
  simp only [deal, h]

theorem closeEach_cons (medium : Medium ε σ (Message T R)) (dst : Nat) (rest : List Nat)
    (fan : FanOut T R) (state : σ) :
    closeEach medium (dst :: rest) (fan, state) =
      Attempt.andThen
        { fault := (medium.offer dst none state).fault
          state := (fan, (medium.offer dst none state).state) }
        (closeEach medium rest) :=
  rfl

/-- Once the buffers of another time have gone out, the records are dealt under the new time. -/
theorem distribute_of_none [DecidableEq T] [Husk R] {medium : Medium ε σ (Message T R)}
    {message : Message T R} {state : FanOut T R × σ}
    (h : (turn medium message.time state).fault = none) :
    (distribute medium message state).toAttempt =
      (deal medium message.time message.data
        ({ (turn medium message.time state).state.1 with current := some message.time },
          (turn medium message.time state).state.2)).1 := by
  simp only [distribute, h]

/-- If the buffers of another time cannot be sent the message stays in the slot as it is. -/
theorem distribute_of_fault [DecidableEq T] [Husk R] {medium : Medium ε σ (Message T R)}
    {message : Message T R} {state : FanOut T R × σ} {error : ε}
    (h : (turn medium message.time state).fault = some error) :
    distribute medium message state =
      { toAttempt := turn medium message.time state, slot := some message } := by
  simp only [distribute, h]

/-- A fan-out with a single destination has nothing to distribute. -/
theorem push_direct [DecidableEq T] [Husk R] (medium : Medium ε σ (Message T R))
    (slot : Option (Message T R)) {fan : FanOut T R} {lane : Lane R} (h : fan.lanes = [lane])
    (state : σ) :
    let offered := Sender.push medium 0 slot (lane.sender, state)
    push medium slot (fan, state) =
      { fault := offered.fault
        state := ({ fan with lanes := [{ lane with sender := offered.state.1 }] }, offered.state.2)
        slot := offered.slot } := by
  simp only [push, h]

/-- An empty slot ends the time of the buffered records. -/
theorem push_none [DecidableEq T] [Husk R] (medium : Medium ε σ (Message T R)) {fan : FanOut T R}
    (h : fan.peers ≠ 1) (state : σ) :
    push medium none (fan, state) = { toAttempt := close medium (fan, state), slot := none } := by
  have hLanes : ∀ lane, fan.lanes ≠ [lane] := fun lane hLane => h (by rw [peers, hLane]; rfl)
  simp only [push]

/-- Among several destinations a message is distributed. -/
theorem push_some [DecidableEq T] [Husk R] (medium : Medium ε σ (Message T R))
    (message : Message T R) {fan : FanOut T R} (h : fan.peers ≠ 1) (state : σ) :
    push medium (some message) (fan, state) = distribute medium message (fan, state) := by
  have hLanes : ∀ lane, fan.lanes ≠ [lane] := fun lane hLane => h (by rw [peers, hLane]; rfl)
  simp only [push]

/-- `P` survives every move that a distributor with several destinations is made of. -/
structure Stable (medium : Medium ε σ (Message T R)) (P : FanOut T R × σ → Prop) : Prop where
  retime : ∀ fan state current, P (fan, state) → P ({ fan with current }, state)
  flush : ∀ time dst fan state, P (fan, state) → P (FanOut.flush medium time dst (fan, state)).state
  put : ∀ time record fan state, P (fan, state) →
    P (FanOut.put medium time record (fan, state)).state
  pass : ∀ fan state dst, P (fan, state) → P (fan, (medium.offer dst none state).state)

namespace Stable

variable {medium : Medium ε σ (Message T R)} {P : FanOut T R × σ → Prop}

/-- Flushes in turn break nothing that a flush does not break. -/
theorem flushEach (h : Stable medium P) (time : T) (targets : List Nat) (fan : FanOut T R)
    (state : σ) (hP : P (fan, state)) :
    P (FanOut.flushEach medium time targets (fan, state)).state := by
  induction targets generalizing fan state with
  | nil => exact hP
  | cons dst rest ih =>
      exact Attempt.andThen_state (h.flush time dst fan state hP)
        fun (fan, state) hP => ih fan state hP

/-- Neither does the flush of all buffers. -/
theorem flushBuffers (h : Stable medium P) (fan : FanOut T R) (state : σ) (hP : P (fan, state)) :
    P (FanOut.flushBuffers medium (fan, state)).state := by
  unfold FanOut.flushBuffers
  split
  · exact h.flushEach _ _ fan state hP
  · exact hP

/-- Dealing records breaks nothing that a single record does not break. -/
theorem deal (h : Stable medium P) (time : T) (records : List R) (fan : FanOut T R) (state : σ)
    (hP : P (fan, state)) : P (FanOut.deal medium time records (fan, state)).1.state := by
  induction records generalizing fan state with
  | nil => exact hP
  | cons record rest ih =>
      have hPut := h.put time record fan state hP
      cases hFault : (FanOut.put medium time record (fan, state)).fault with
      | none =>
          rw [deal_cons_of_none hFault]
          exact ih _ _ hPut
      | some error =>
          rw [deal_cons_of_fault hFault]
          exact hPut

/-- Passing empty slots on breaks nothing that one of them does not break. -/
theorem closeEach (h : Stable medium P) (targets : List Nat) (fan : FanOut T R) (state : σ)
    (hP : P (fan, state)) : P (FanOut.closeEach medium targets (fan, state)).state := by
  induction targets generalizing state with
  | nil => exact hP
  | cons dst rest ih =>
      rw [closeEach_cons]
      cases hFault : (medium.offer dst none state).fault with
      | none => exact ih _ (h.pass fan state dst hP)
      | some error => exact h.pass fan state dst hP

/-- An empty slot for the distributor breaks nothing. -/
theorem close (h : Stable medium P) (fan : FanOut T R) (state : σ) (hP : P (fan, state)) :
    P (FanOut.close medium (fan, state)).state := by
  apply Attempt.andThen_state (h.flushBuffers fan state hP)
  intro state hP
  obtain ⟨fan, state⟩ := state
  exact h.closeEach _ _ _ (h.retime fan state none hP)

variable [DecidableEq T]

/-- Turning to another time breaks nothing. -/
theorem turn (h : Stable medium P) (time : T) (fan : FanOut T R) (state : σ)
    (hP : P (fan, state)) : P (FanOut.turn medium time (fan, state)).state := by
  unfold FanOut.turn
  split
  · exact h.flushBuffers fan state hP
  · exact hP

/-- Distributing a message breaks nothing. -/
theorem distribute [Husk R] (h : Stable medium P) (message : Message T R) (fan : FanOut T R)
    (state : σ) (hP : P (fan, state)) :
    P (FanOut.distribute medium message (fan, state)).state := by
  have hTurn := h.turn message.time fan state hP
  cases hFault : (FanOut.turn medium message.time (fan, state)).fault with
  | some error =>
      rw [distribute_of_fault hFault]
      exact hTurn
  | none =>
      rw [distribute_of_none hFault]
      exact h.deal message.time message.data _ _ (h.retime _ _ (some message.time) hTurn)

/-- A property that no move breaks is kept whatever slot is pushed and whatever the destinations
do with it, unless there is nothing to distribute. -/
theorem push [Husk R] (h : Stable medium P) (slot : Option (Message T R)) {fan : FanOut T R}
    (hPeers : fan.peers ≠ 1) (state : σ) (hP : P (fan, state)) :
    P (FanOut.push medium slot (fan, state)).state := by
  cases slot with
  | none =>
      rw [push_none medium hPeers]
      exact h.close fan state hP
  | some message =>
      rw [push_some medium message hPeers]
      exact h.distribute message fan state hP

end Stable

/-- `P` is indifferent to buffers and to their time, and it survives the sending of any message
through a lane and the passing on of an empty slot. -/
structure Kept (medium : Medium ε σ (Message T R)) (P : FanOut T R × σ → Prop) : Prop where
  rebuffer : ∀ fan state lanes current, lanes.map Lane.sender = fan.lanes.map Lane.sender →
    P (fan, state) → P ({ fan with lanes, current }, state)
  send : ∀ fan state dst lane message, fan.lanes[dst]? = some lane → P (fan, state) →
    let offered := Sender.push medium dst (some message) (lane.sender, state)
    P ({ fan with lanes := fan.lanes.set dst ⟨offered.state.1, []⟩ }, offered.state.2)
  pass : ∀ fan state dst, P (fan, state) → P (fan, (medium.offer dst none state).state)

/-- What neither noting nor offering disturbs, no push disturbs. -/
theorem kept_of_surroundings {medium : Medium ε σ (Message T R)} {P : σ → Prop}
    (hNote : ∀ sink event state, P state → P (medium.note sink event state))
    (hOffer : ∀ dst slot state, P state → P (medium.offer dst slot state).state) :
    Kept medium fun state : FanOut T R × σ => P state.2 where
  rebuffer _ _ _ _ _ h := h
  send fan state dst lane message _ h := by
    refine hOffer dst _ _ ?_
    cases lane.sender.sink with
    | none => exact h
    | some sink => exact hNote sink _ _ h
  pass _ state dst h := hOffer dst none state h

namespace Kept

variable {medium : Medium ε σ (Message T R)} {P : FanOut T R × σ → Prop}

/-- A flush is a buffer emptied and a message sent. -/
theorem flush (h : Kept medium P) (time : T) (dst : Nat) (fan : FanOut T R) (state : σ)
    (hP : P (fan, state)) : P (FanOut.flush medium time dst (fan, state)).state := by
  rcases flush_cases medium time dst fan state with ⟨-, hFlush⟩ | ⟨sender, -, hLane, hFlush⟩
  · rw [hFlush]
    exact hP
  · rw [hFlush]
    exact h.send fan state dst _ _ hLane hP

theorem put (h : Kept medium P) (time : T) (record : R) (fan : FanOut T R) (state : σ)
    (hP : P (fan, state)) : P (FanOut.put medium time record (fan, state)).state := by
  have hAppend : P (fan.append (fan.route record) record, state) :=
    h.rebuffer fan state _ fan.current (senders_append fan _ record) hP
  rw [put_eq]
  dsimp only
  split
  · exact h.flush time _ _ state hAppend
  · exact hAppend

/-- What no move on buffers and surroundings breaks is stable. -/
theorem stable (h : Kept medium P) : Stable medium P where
  retime fan state current hP := h.rebuffer fan state fan.lanes current rfl hP
  flush := h.flush
  put := h.put
  pass := h.pass

/-- Such a property is kept by every push, also by one that has nothing to distribute. -/
theorem push [DecidableEq T] [Husk R] (h : Kept medium P) (slot : Option (Message T R))
    (fan : FanOut T R) (state : σ) (hP : P (fan, state)) :
    P (FanOut.push medium slot (fan, state)).state := by
  by_cases hPeers : fan.peers = 1
  · obtain ⟨lane, hLanes⟩ := List.length_eq_one_iff.mp hPeers
    rw [push_direct medium slot hLanes]
    cases slot with
    | none =>
        have hSame : { fan with lanes := [lane] } = fan := by rw [← hLanes]
        exact hSame ▸ h.pass fan state 0 hP
    | some message =>
        have hLane : fan.lanes[0]? = some lane := by rw [hLanes]; rfl
        let offered := Sender.push medium 0 (some message) (lane.sender, state)
        let sent := { fan with lanes := fan.lanes.set 0 ⟨offered.state.1, []⟩ }
        -- The message passes by the buffer, so it is a send that leaves the buffer as it was.
        have hSent : P (sent, offered.state.2) := h.send fan state 0 lane message hLane hP
        have hSenders : [(⟨offered.state.1, lane.buffer⟩ : Lane R)].map Lane.sender =
            sent.lanes.map Lane.sender := by
          simp only [sent, hLanes, List.set_cons_zero, List.map_cons, List.map_nil]
        exact h.rebuffer sent _ [⟨offered.state.1, lane.buffer⟩] fan.current hSenders hSent
  · exact h.stable.push slot hPeers state hP

end Kept

end FanOut

end Dataflow
