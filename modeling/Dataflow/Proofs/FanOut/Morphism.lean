import Dataflow.Proofs.FanOut.Moves

/-! Distributors seen through a map. If a map of states goes along with all that a destination does
and with all that is noted, even when senders report elsewhere, then it goes along with every push:
the same faults, the same slots, and states that the map takes to each other. -/
namespace Dataflow

variable {ε ε' σ σ' T R : Type}

/-- The attempt as it looks through a map of states, with its faults under other names. -/
def Attempt.map (raise : ε → ε') (view : σ → σ') (attempt : Attempt ε σ) : Attempt ε' σ' where
  fault := attempt.fault.map raise
  state := view attempt.state

def Offered.map {M : Type} (raise : ε → ε') (view : σ → σ') (offered : Offered ε σ M) :
    Offered ε' σ' M where
  toAttempt := offered.toAttempt.map raise view
  slot := offered.slot

/-- Faults that keep their names are the same faults. -/
theorem Offered.map_id {M : Type} (view : σ → σ') (offered : Offered ε σ M) :
    offered.map id view =
      { fault := offered.fault, state := view offered.state, slot := offered.slot } := by
  rw [Offered.map, Attempt.map, Option.map_id, id]

/-- Two attempts in a row are seen one after the other. -/
theorem Attempt.map_andThen {raise : ε → ε'} {view : σ → σ'} (first : Attempt ε σ)
    {next : σ → Attempt ε σ} {next' : σ' → Attempt ε' σ'}
    (h : ∀ state, next' (view state) = (next state).map raise view) :
    (first.map raise view).andThen next' = (first.andThen next).map raise view := by
  cases hFault : first.fault with
  | none =>
      have hFault' : (first.map raise view).fault = none := congrArg (Option.map raise) hFault
      rw [andThen_of_none hFault, andThen_of_none hFault', ← h]
      rfl
  | some error =>
      have hFault' : (first.map raise view).fault = some (raise error) :=
        congrArg (Option.map raise) hFault
      rw [andThen_of_fault hFault, andThen_of_fault hFault']

def Sender.redirect (divert : Option Sink → Option Sink) (sender : Sender) : Sender :=
  { sender with sink := divert sender.sink }

namespace FanOut

def redirect (divert : Option Sink → Option Sink) (fan : FanOut T R) : FanOut T R :=
  { fan with
    lanes := fan.lanes.map fun lane => { lane with sender := lane.sender.redirect divert } }

/-- A distributor whose senders report as before is the same. -/
theorem redirect_id (fan : FanOut T R) : fan.redirect id = fan := by
  have hLanes : (fan.lanes.map fun lane => { lane with sender := lane.sender.redirect id }) =
      fan.lanes := List.map_id fan.lanes
  rw [redirect, hLanes]

end FanOut

/-- Where the senders report makes no difference to the making of a distributor. -/
theorem FanOut.create_redirect (divert : Option Sink → Option Sink) (senders : List Sender)
    (capacity : Nat) (hash : R → UInt64) :
    (create (senders.map (Sender.redirect divert)) capacity hash :
        Except FanOutError (FanOut T R)) =
      (create senders capacity hash).map (redirect divert) := by
  simp only [create, List.map_eq_nil_iff]
  by_cases hSenders : senders = []
  · rw [if_pos hSenders, if_pos hSenders]
    rfl
  · rw [if_neg hSenders, if_neg hSenders]
    by_cases hCapacity : capacity = 0
    · rw [if_pos hCapacity, if_pos hCapacity]
      rfl
    · rw [if_neg hCapacity, if_neg hCapacity]
      simp only [Except.map, redirect, List.map_map]
      rfl

/-- `view` takes what happens at one medium to what happens at the other. -/
structure Medium.Morphism (raise : ε → ε') (divert : Option Sink → Option Sink) (view : σ → σ')
    (medium : Medium ε σ (Message T R)) (medium' : Medium ε' σ' (Message T R)) : Prop where
  note : ∀ sink event state,
    medium'.noteTo (divert sink) event (view state) = view (medium.noteTo sink event state)
  offer : ∀ dst slot state,
    medium'.offer dst slot (view state) = (medium.offer dst slot state).map raise view

variable {raise : ε → ε'} {divert : Option Sink → Option Sink} {view : σ → σ'}
  {medium : Medium ε σ (Message T R)} {medium' : Medium ε' σ' (Message T R)}

/-- A sender that reports elsewhere pushes the same. -/
theorem Sender.push_redirect (h : medium.Morphism raise divert view medium') (dst : Nat)
    (slot : Option (Message T R)) (sender : Sender) (state : σ) :
    Sender.push medium' dst slot (sender.redirect divert, view state) =
      (Sender.push medium dst slot (sender, state)).map raise (Prod.map (redirect divert) view) := by
  cases slot with
  | none =>
      simp only [Sender.push, h.offer]
      rfl
  | some message =>
      have hNote : medium'.noteTo (sender.redirect divert).sink
          ((sender.redirect divert).event message) (view state) =
          view (medium.noteTo sender.sink (sender.event message) state) :=
        h.note sender.sink (sender.event message) state
      have hStamp : (sender.redirect divert).stamp message = sender.stamp message := rfl
      simp only [Sender.push, hNote, hStamp, h.offer]
      rfl

namespace FanOut

/-- The distributor and its surroundings as they look through the map. -/
def through (divert : Option Sink → Option Sink) (view : σ → σ') (state : FanOut T R × σ) :
    FanOut T R × σ' :=
  (state.1.redirect divert, view state.2)

/-- Where every sender reports as before, only the states are seen through the map. -/
theorem through_id (view : σ → σ') : through (T := T) (R := R) id view = Prod.map id view :=
  funext fun state => Prod.ext state.1.redirect_id rfl

theorem through_mk (fan : FanOut T R) (state : σ) :
    through divert view (fan, state) = (fan.redirect divert, view state) :=
  rfl

theorem lane_redirect (fan : FanOut T R) (dst : Nat) :
    (fan.redirect divert).lanes[dst]? =
      fan.lanes[dst]?.map fun lane => { lane with sender := lane.sender.redirect divert } :=
  List.getElem?_map

theorem peers_redirect (fan : FanOut T R) : (fan.redirect divert).peers = fan.peers :=
  List.length_map _

theorem buffered?_redirect (fan : FanOut T R) (dst : Nat) :
    (fan.redirect divert).buffered? dst = fan.buffered? dst := by
  rw [buffered?, buffered?, lane_redirect, Option.map_map]
  rfl

/-- Records take the same ways. -/
theorem route_redirect (fan : FanOut T R) (record : R) :
    (fan.redirect divert).route record = fan.route record := by
  rw [route, route, peers_redirect]
  rfl

/-- Records wait in the same buffers. -/
theorem append_redirect (fan : FanOut T R) (dst : Nat) (record : R) :
    (fan.redirect divert).append dst record = (fan.append dst record).redirect divert := by
  simp only [append, redirect, FanOut.mk.injEq, and_true]
  apply List.ext_getElem?
  intro i
  simp only [List.getElem?_modify, List.getElem?_map, Option.map_eq_map, Option.map_map]
  congr 1
  funext lane
  by_cases hDst : dst = i
  · simp [hDst]
  · simp [hDst]

/-- A flush looks the same through the map. -/
theorem flush_through (h : medium.Morphism raise divert view medium') (time : T) (dst : Nat)
    (state : FanOut T R × σ) :
    flush medium' time dst (through divert view state) =
      (flush medium time dst state).map raise (through divert view) := by
  obtain ⟨fan, state⟩ := state
  have hLane : (fan.redirect divert).lanes[dst]? = _ := lane_redirect fan dst
  cases hFound : fan.lanes[dst]? with
  | none =>
      rw [hFound, Option.map_none] at hLane
      simp only [flush, through_mk, hLane, hFound]
      rfl
  | some lane =>
      obtain ⟨sender, waiting⟩ := lane
      rw [hFound, Option.map_some] at hLane
      cases waiting with
      | nil =>
          simp only [flush, through_mk, hLane, hFound]
          rfl
      | cons record records =>
          simp only [flush, through_mk, hLane, hFound, Message.pushAt_fst, Message.pushAt_snd,
            Sender.push_redirect h]
          simp only [Offered.map, Attempt.map, through, redirect, List.map_set]
          rfl

theorem flushEach_through (h : medium.Morphism raise divert view medium') (time : T)
    (targets : List Nat) (state : FanOut T R × σ) :
    flushEach medium' time targets (through divert view state) =
      (flushEach medium time targets state).map raise (through divert view) := by
  induction targets generalizing state with
  | nil => rfl
  | cons dst rest ih =>
      rw [flushEach, flushEach, flush_through h]
      exact Attempt.map_andThen _ ih

/-- So does the flush of all buffers. -/
theorem flushBuffers_through (h : medium.Morphism raise divert view medium')
    (state : FanOut T R × σ) :
    flushBuffers medium' (through divert view state) =
      (flushBuffers medium state).map raise (through divert view) := by
  obtain ⟨fan, state⟩ := state
  have hCurrent : (fan.redirect divert).current = fan.current := rfl
  simp only [flushBuffers, through_mk, hCurrent, peers_redirect]
  cases fan.current with
  | none => rfl
  | some time => exact flushEach_through h time (List.range fan.peers) (fan, state)

/-- The buffering of a record looks the same through the map. -/
theorem put_through (h : medium.Morphism raise divert view medium') (time : T) (record : R)
    (state : FanOut T R × σ) :
    put medium' time record (through divert view state) =
      (put medium time record state).map raise (through divert view) := by
  obtain ⟨fan, state⟩ := state
  let filled := fan.append (fan.route record) record
  have hCapacity : (filled.redirect divert).capacity = filled.capacity := rfl
  rw [through_mk, put_eq, put_eq]
  simp only [route_redirect, append_redirect, buffered?_redirect, hCapacity, filled]
  by_cases hFull : (filled.buffered? (fan.route record)).any (filled.capacity ≤ ·)
  · rw [if_pos hFull, if_pos hFull]
    exact flush_through h time (fan.route record) (filled, state)
  · rw [if_neg hFull, if_neg hFull]
    rfl

/-- The dealing of records looks the same, and leaves the same records untouched. -/
theorem deal_through (h : medium.Morphism raise divert view medium') (time : T) (records : List R)
    (state : FanOut T R × σ) :
    deal medium' time records (through divert view state) =
      ((deal medium time records state).1.map raise (through divert view),
        (deal medium time records state).2) := by
  induction records generalizing state with
  | nil => rfl
  | cons record rest ih =>
      have hPut := put_through h time record state
      have hFault' : (put medium' time record (through divert view state)).fault =
          (put medium time record state).fault.map raise := by rw [hPut]; rfl
      cases hFault : (put medium time record state).fault with
      | none =>
          rw [hFault] at hFault'
          rw [deal_cons_of_none hFault, deal_cons_of_none hFault', hPut]
          exact ih _
      | some error =>
          rw [hFault] at hFault'
          rw [deal_cons_of_fault hFault, deal_cons_of_fault hFault', hPut]

theorem closeEach_through (h : medium.Morphism raise divert view medium') (targets : List Nat)
    (state : FanOut T R × σ) :
    closeEach medium' targets (through divert view state) =
      (closeEach medium targets state).map raise (through divert view) := by
  induction targets generalizing state with
  | nil => rfl
  | cons dst rest ih =>
      obtain ⟨fan, state⟩ := state
      rw [through_mk, closeEach_cons, closeEach_cons, h.offer]
      let first : Attempt ε (FanOut T R × σ) :=
        { fault := (medium.offer dst none state).fault
          state := (fan, (medium.offer dst none state).state) }
      exact Attempt.map_andThen first ih

/-- The end of a stream looks the same through the map. -/
theorem close_through (h : medium.Morphism raise divert view medium') (state : FanOut T R × σ) :
    close medium' (through divert view state) =
      (close medium state).map raise (through divert view) := by
  rw [close, close, flushBuffers_through h]
  apply Attempt.map_andThen
  intro state
  obtain ⟨fan, state⟩ := state
  simp only [through_mk, peers_redirect]
  exact closeEach_through h (List.range fan.peers) ({ fan with current := none }, state)

variable [DecidableEq T]

/-- The turn to another time looks the same through the map. -/
theorem turn_through (h : medium.Morphism raise divert view medium') (time : T)
    (state : FanOut T R × σ) :
    turn medium' time (through divert view state) =
      (turn medium time state).map raise (through divert view) := by
  have hCurrent : (through divert view state).1.current = state.1.current := rfl
  rw [turn, turn, hCurrent]
  split
  · exact flushBuffers_through h state
  · rfl

variable [Husk R]

/-- The distribution of a message looks the same, and leaves the same in the slot. -/
theorem distribute_through (h : medium.Morphism raise divert view medium') (message : Message T R)
    (state : FanOut T R × σ) :
    distribute medium' message (through divert view state) =
      (distribute medium message state).map raise (through divert view) := by
  have hTurn := turn_through h message.time state
  cases hFault : (turn medium message.time state).fault with
  | some error =>
      have hFault' :
          (turn medium' message.time (through divert view state)).fault = some (raise error) := by
        rw [hTurn]
        exact congrArg (Option.map raise) hFault
      rw [distribute_of_fault hFault, distribute_of_fault hFault', hTurn]
      rfl
  | none =>
      let start : FanOut T R × σ := ({ (turn medium message.time state).state.1 with
        current := some message.time }, (turn medium message.time state).state.2)
      have hDeal := deal_through h message.time message.data start
      have hStart : ({ (through divert view (turn medium message.time state).state).1 with
          current := some message.time },
          (through divert view (turn medium message.time state).state).2) =
        through divert view start := rfl
      simp only [distribute, hTurn, Attempt.map, hFault, Option.map_none]
      rw [hStart, hDeal]
      -- what is left in the slot depends on whether the dealing failed, and not on how
      cases hDealt : (deal medium message.time message.data start).1.fault with
      | none => simp only [Attempt.map, hDealt, start, Offered.map, Option.map_none]
      | some error => simp only [Attempt.map, hDealt, start, Offered.map, Option.map_some]

/-- A push looks the same through the map, whatever slot is pushed. -/
theorem push_through (h : medium.Morphism raise divert view medium') (slot : Option (Message T R))
    (state : FanOut T R × σ) :
    push medium' slot (through divert view state) =
      (push medium slot state).map raise (through divert view) := by
  obtain ⟨fan, state⟩ := state
  by_cases hPeers : fan.peers = 1
  · obtain ⟨lane, hLanes⟩ := List.length_eq_one_iff.mp hPeers
    have hLanes' : (fan.redirect divert).lanes =
        [{ lane with sender := lane.sender.redirect divert }] := by
      rw [redirect, hLanes]
      rfl
    rw [through_mk, push_direct medium slot hLanes, push_direct medium' slot hLanes']
    simp only [Sender.push_redirect h]
    rfl
  · have hPeers' : (fan.redirect divert).peers ≠ 1 := by
      rw [peers_redirect]
      exact hPeers
    cases slot with
    | none =>
        rw [through_mk, push_none medium hPeers, push_none medium' hPeers']
        simp only [Offered.map]
        congr 1
        exact close_through h (fan, state)
    | some message =>
        rw [through_mk, push_some medium message hPeers, push_some medium' message hPeers']
        exact distribute_through h message (fan, state)

end FanOut

end Dataflow
