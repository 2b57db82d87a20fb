import Dataflow.Proofs.Medium.Audit

/-! Bounds and labels of a distributor whose destinations do as they please. Buffers stay below the
capacity, what is sent has between one and that many records, and no record is sent or kept under
another time or for another destination than its own, however often a push is cut short. -/
namespace Dataflow

variable {ε σ T R : Type}

namespace FanOut

variable {medium : Medium ε σ (Message T R)} {offers : σ → Nat → List (Message T R)}

/-- No buffer is full, and nothing was offered that is empty or larger than a full buffer. -/
structure Bounded (offers : σ → Nat → List (Message T R)) (state : FanOut T R × σ) : Prop where
  peers : 0 < state.1.peers
  room : ∀ dst, (state.1.buffer dst).length < state.1.capacity
  sized : ∀ dst, ∀ message ∈ offers state.2 dst,
    1 ≤ message.length ∧ message.length ≤ state.1.capacity

/-- A flush of a buffer that may be just full. -/
theorem flush_bounded (h : medium.Remembers offers) {fan : FanOut T R} {state : σ} {target : Nat}
    (hPeers : 0 < fan.peers) (hTarget : (fan.buffer target).length ≤ fan.capacity)
    (hOthers : ∀ dst, dst ≠ target → (fan.buffer dst).length < fan.capacity)
    (hPositive : 0 < fan.capacity)
    (hSized : ∀ dst, ∀ message ∈ offers state dst,
      1 ≤ message.length ∧ message.length ≤ fan.capacity) (time : T) :
    Bounded offers (flush medium time target (fan, state)).state := by
  obtain ⟨-, hCapacity, hCount⟩ := (kept_shape medium fan.hash fan.capacity fan.peers).flush
    time target fan state ⟨rfl, rfl, rfl⟩
  refine ⟨Nat.lt_of_lt_of_eq hPeers hCount.symm, fun dst => ?_, fun dst message hMessage => ?_⟩
  · rw [flush_buffer, hCapacity]
    split
    · exact hPositive
    · rename_i hDst
      exact hOthers dst hDst
  · rw [hCapacity]
    rcases flush_cases medium time target fan state with
      ⟨-, hFlush⟩ | ⟨sender, hWaiting, -, hFlush⟩
    · rw [hFlush] at hMessage
      exact hSized dst message hMessage
    · simp only [hFlush, h.push, List.mem_append] at hMessage
      rcases hMessage with hOld | hNew
      · exact hSized dst message hOld
      · split at hNew
        · rw [List.mem_singleton.mp hNew]
          exact ⟨List.length_pos_iff.mpr hWaiting, hTarget⟩
        · exact absurd hNew List.not_mem_nil

/-- A flush keeps all bounds. -/
theorem Bounded.flush (h : medium.Remembers offers) {fan : FanOut T R} {state : σ}
    (hBounded : Bounded offers (fan, state)) (time : T) (target : Nat) :
    Bounded offers (FanOut.flush medium time target (fan, state)).state :=
  flush_bounded h hBounded.peers (Nat.le_of_lt (hBounded.room target))
    (fun dst _ => hBounded.room dst) (Nat.zero_lt_of_lt (hBounded.room target)) hBounded.sized time

/-- A record fills its buffer at most to the capacity, and then the buffer is sent. -/
theorem Bounded.put (h : medium.Remembers offers) {fan : FanOut T R} {state : σ}
    (hBounded : Bounded offers (fan, state)) (time : T) (record : R) :
    Bounded offers (FanOut.put medium time record (fan, state)).state := by
  let target := fan.route record
  let filled := fan.append target record
  have hRoute : target < fan.peers := Hash.destination_lt _ hBounded.peers
  have hPeers : filled.peers = fan.peers := List.length_modify _ _ _
  have hFilledPeers : 0 < filled.peers := hPeers ▸ hBounded.peers
  have hBuffer (dst : Nat) : filled.buffer dst =
      fan.buffer dst ++ if dst = target then [record] else [] := buffer_append hRoute record dst
  have hTarget : (filled.buffer target).length ≤ filled.capacity := by
    rw [hBuffer, if_pos rfl, List.length_append]
    exact hBounded.room target
  have hOthers (dst : Nat) (hDst : dst ≠ target) :
      (filled.buffer dst).length < filled.capacity := by
    rw [hBuffer, if_neg hDst, List.append_nil]
    exact hBounded.room dst
  have hLane : filled.buffered? target = some (filled.buffer target).length :=
    buffered?_of_lt (hPeers ▸ hRoute)
  rw [put_eq]
  dsimp only
  split
  · exact flush_bounded h hFilledPeers hTarget hOthers
      (Nat.zero_lt_of_lt (hBounded.room target)) hBounded.sized time
  · rename_i hFree
    refine ⟨hFilledPeers, fun dst => ?_, hBounded.sized⟩
    by_cases hDst : dst = target
    · subst hDst
      have hSmall : ¬filled.capacity ≤ (filled.buffer target).length := by
        simpa [filled, target, hLane] using hFree
      exact Nat.lt_of_not_le hSmall
    · exact hOthers dst hDst

/-- All bounds are kept by every move. -/
theorem bounded_stable (h : medium.Remembers offers) :
    Stable medium (Bounded (T := T) (R := R) offers) where
  retime fan state current hBounded := ⟨hBounded.peers, hBounded.room, hBounded.sized⟩
  flush time dst fan state hBounded := hBounded.flush h time dst
  put time record fan state hBounded := hBounded.put h time record
  pass fan state target hBounded := by
    refine ⟨hBounded.peers, hBounded.room, fun dst message hMessage => ?_⟩
    rw [h.offer] at hMessage
    apply hBounded.sized dst message
    simpa using hMessage

/-- What holds of a distributor between any two pushes. `pushed` is what it was given so far, each
record with the time of its message. -/
structure Faithful (offers : σ → Nat → List (Message T R)) (capacity : Nat) (hash : R → UInt64)
    (peers : Nat) (pushed : List (T × R)) (state : FanOut T R × σ) : Prop where
  shape : state.1.hash = hash ∧ state.1.capacity = capacity ∧ state.1.peers = peers
  settled : state.1.Settled
  bounded : Bounded offers state
  ledger : ∀ dst, (ledger offers state dst).Sublist
    (pushed.filter fun p => Hash.destination (hash p.2) peers = dst)

/-- A new distributor has been given nothing. -/
theorem Faithful.create {senders : List Sender} {capacity : Nat} {hash : R → UInt64}
    {fan : FanOut T R} (hCreate : create senders capacity hash = .ok fan) {state : σ}
    (hOffers : ∀ dst, offers state dst = []) :
    Faithful offers capacity hash senders.length [] (fan, state) := by
  obtain ⟨hSenders, hHash, hTime, hBuffer⟩ := create_ok hCreate
  obtain ⟨hNonempty, hPositive, hCapacity⟩ := create_capacity hCreate
  have hPeers : fan.peers = senders.length := by
    rw [← hSenders, List.length_map, peers]
  refine ⟨⟨hHash, hCapacity, hPeers⟩, ⟨fun _ => hBuffer, fun _ => hTime⟩, ⟨?_, ?_, ?_⟩, ?_⟩
  · rw [hPeers]
    exact List.length_pos_iff.mpr hNonempty
  · intro dst
    rw [hBuffer, hCapacity]
    exact hPositive
  · intro dst message hMessage
    rw [hOffers] at hMessage
    exact absurd hMessage List.not_mem_nil
  · intro dst
    rw [FanOut.ledger, hOffers, waiting_of_buffer_nil (hBuffer dst)]
    exact List.nil_sublist _

/-- A record of the books of a destination was given to the distributor at the time under which it
is booked, and the hash sends it there. -/
theorem Faithful.origin {capacity peers : Nat} {hash : R → UInt64}
    {slots : List (Option (Message T R))} {state : FanOut T R × σ}
    (h : Faithful offers capacity hash peers
      (slots.flatMap fun slot => slot.toList.flatMap Message.timed) state) {dst : Nat} {time : T}
    {record : R} (hRecord : (time, record) ∈ FanOut.ledger offers state dst) :
    (hash record).toNat % peers = dst ∧
      ∃ message, some message ∈ slots ∧ message.time = time ∧ record ∈ message.data := by
  obtain ⟨hPushed, hRoute⟩ := List.mem_filter.mp ((h.ledger dst).subset hRecord)
  obtain ⟨slot, hSlot, hTimed⟩ := List.mem_flatMap.mp hPushed
  obtain ⟨message, hMessage, hPair⟩ := List.mem_flatMap.mp hTimed
  obtain ⟨other, hOther, hSame⟩ := List.mem_map.mp hPair
  obtain ⟨rfl, rfl⟩ := Prod.mk.inj hSame
  rw [Option.mem_toList] at hMessage
  exact ⟨of_decide_eq_true hRoute, message, hMessage ▸ hSlot, rfl, hOther⟩

variable [DecidableEq T] [Husk R]

/-- A push adds to the books of a destination only records that it was given, in their order. -/
theorem push_ledger_sublist (h : medium.Remembers offers) {fan : FanOut T R}
    (hSettled : fan.Settled) (hPeers : 0 < fan.peers) (hMany : fan.peers ≠ 1)
    (slot : Option (Message T R)) (state : σ) (dst : Nat) :
    (ledger offers (push medium slot (fan, state)).state dst).Sublist
      (ledger offers (fan, state) dst ++
        (slot.toList.flatMap Message.timed).filter fun p => fan.route p.2 = dst) := by
  cases slot with
  | none =>
      rw [push_none medium hMany, close_ledger h hSettled]
      exact List.sublist_append_left _ _
  | some message =>
      rw [push_some medium message hMany]
      rw [distribute_consumes h hSettled hPeers, Option.toList_some, List.flatMap_singleton]
      exact ((List.take_sublist _ _).filter _).append_left _

/-- Pushes slots in turn. A push that fails is not repeated, and the others go on after it. -/
def pushAll (medium : Medium ε σ (Message T R)) (slots : List (Option (Message T R)))
    (state : FanOut T R × σ) : FanOut T R × σ :=
  slots.foldl (fun state slot => (push medium slot state).state) state

theorem pushAll_cons (medium : Medium ε σ (Message T R)) (slot : Option (Message T R))
    (rest : List (Option (Message T R))) (state : FanOut T R × σ) :
    pushAll medium (slot :: rest) state = pushAll medium rest (push medium slot state).state :=
  rfl

/-- A run looks the same through a map that goes along with all that a medium does. -/
theorem pushAll_view {ε' σ' : Type} {raise : ε → ε'} {view : σ → σ'}
    {medium' : Medium ε' σ' (Message T R)} (h : medium.Morphism raise id view medium')
    (slots : List (Option (Message T R))) (state : FanOut T R × σ) :
    pushAll medium' slots (state.1, view state.2) =
      ((pushAll medium slots state).1, view (pushAll medium slots state).2) := by
  induction slots generalizing state with
  | nil => rfl
  | cons slot rest ih =>
      have hPush := push_through h slot state
      have hStart : through id view state = (state.1, view state.2) :=
        Prod.ext (redirect_id _) rfl
      have hState : (push medium' slot (state.1, view state.2)).state =
          ((push medium slot state).state.1, view (push medium slot state).state.2) := by
        rw [← hStart, hPush]
        exact Prod.ext (redirect_id _) rfl
      rw [pushAll_cons, pushAll_cons, hState]
      exact ih _

/-- Every push keeps a distributor faithful, whether or not it fails. -/
theorem Faithful.push (h : medium.Remembers offers) {capacity peers : Nat} {hash : R → UInt64}
    (hMany : peers ≠ 1) {pushed : List (T × R)} {fan : FanOut T R} {state : σ}
    (hFaithful : Faithful offers capacity hash peers pushed (fan, state))
    (slot : Option (Message T R)) :
    Faithful offers capacity hash peers (pushed ++ slot.toList.flatMap Message.timed)
      (FanOut.push medium slot (fan, state)).state := by
  obtain ⟨hHash, hCapacity, hPeers⟩ := hFaithful.shape
  dsimp only at hHash hCapacity hPeers
  have hSeveral : fan.peers ≠ 1 := hPeers ▸ hMany
  have hRoute (record : R) : fan.route record = Hash.destination (hash record) peers := by
    rw [route, hHash, hPeers]
  refine ⟨(kept_shape medium hash capacity peers).push slot fan state hFaithful.shape,
    push_settled hFaithful.settled slot state,
    (bounded_stable h).push slot hSeveral state hFaithful.bounded, fun dst => ?_⟩
  have hPush := push_ledger_sublist h hFaithful.settled hFaithful.bounded.peers hSeveral slot state
    dst
  simp only [hRoute] at hPush
  rw [List.filter_append]
  exact hPush.trans ((hFaithful.ledger dst).append_right _)

/-- A faithful distributor stays so through any pushes. -/
theorem Faithful.pushAll (h : medium.Remembers offers) {capacity peers : Nat} {hash : R → UInt64}
    (hMany : peers ≠ 1) {pushed : List (T × R)} {state : FanOut T R × σ}
    (hFaithful : Faithful offers capacity hash peers pushed state)
    (slots : List (Option (Message T R))) :
    Faithful offers capacity hash peers
      (pushed ++ slots.flatMap fun slot => slot.toList.flatMap Message.timed)
      (FanOut.pushAll medium slots state) := by
  induction slots generalizing state pushed with
  | nil =>
      rw [List.flatMap_nil, List.append_nil]
      exact hFaithful
  | cons slot rest ih =>
      rw [pushAll_cons, List.flatMap_cons, ← List.append_assoc]
      exact ih (hFaithful.push h hMany slot)

/-- Whatever the destinations do, between any two pushes, failed ones included: no buffer is full;
without a time nothing waits; whatever waits was pushed at the current time and waits for its own
destination; whatever was offered to a destination is a message of one up to `capacity` records that
were all pushed at its time; and for each destination the records offered and then those waiting are
among the records pushed to it in their order, none of them twice. That the run is audited has no
bearing on it. -/
theorem bounded_and_labelled (medium : Medium ε σ (Message T R)) {senders : List Sender}
    {capacity : Nat} {hash : R → UInt64} {fan : FanOut T R}
    (hCreate : create senders capacity hash = .ok fan) (hMany : 2 ≤ senders.length)
    (slots : List (Option (Message T R))) (start : σ) :
    let run := FanOut.pushAll medium.audited slots (fan, start, [])
    let after := run.1
    let incidents := run.2.2
    FanOut.pushAll medium slots (fan, start) = (after, run.2.1) ∧
    (∀ dst, (after.buffer dst).length < capacity) ∧
    (after.current = none → ∀ dst, after.buffer dst = []) ∧
    (∀ dst, ∀ record ∈ after.buffer dst, (hash record).toNat % senders.length = dst ∧
      ∃ message, some message ∈ slots ∧ after.current = some message.time ∧
        record ∈ message.data) ∧
    (∀ dst, ∀ message ∈ offeredTo dst incidents,
      1 ≤ message.length ∧ message.length ≤ capacity ∧
        ∀ record ∈ message.data, ∃ pushed, some pushed ∈ slots ∧ pushed.time = message.time ∧
          record ∈ pushed.data) ∧
    ∀ dst, ((offeredTo dst incidents).flatMap Message.timed ++ after.waiting dst).Sublist
      ((slots.flatMap fun slot => slot.toList.flatMap Message.timed).filter fun p =>
        (hash p.2).toNat % senders.length = dst) := by
  intro run after incidents
  have hRemembers := medium.audited_remembers
  have hCreated : Faithful (fun state dst => offeredTo dst state.2) capacity hash senders.length []
      (fan, start, ([] : List (Incident ε (Message T R)))) := Faithful.create hCreate fun _ => rfl
  have hFaithful := hCreated.pushAll hRemembers (Nat.ne_of_gt hMany) slots
  rw [List.nil_append] at hFaithful
  have hCapacity : after.capacity = capacity := hFaithful.shape.2.1
  refine ⟨pushAll_view medium.audited_morphism slots (fan, start, []), fun dst => ?_,
    hFaithful.settled.idle, fun dst record hRecord => ?_, fun dst message hOffered => ?_,
    hFaithful.ledger⟩
  · rw [← hCapacity]
    exact hFaithful.bounded.room dst
  · cases hTime : after.current with
    | none =>
        rw [hFaithful.settled.idle hTime dst] at hRecord
        exact absurd hRecord List.not_mem_nil
    | some time =>
        have hWaiting : (time, record) ∈ after.waiting dst := by
          rw [waiting_of_current hTime]
          exact List.mem_map_of_mem hRecord
        obtain ⟨hRoute, message, hPushed, rfl, hData⟩ :=
          hFaithful.origin (List.mem_append_right _ hWaiting)
        exact ⟨hRoute, message, hPushed, rfl, hData⟩
  · obtain ⟨hSome, hFits⟩ := hFaithful.bounded.sized dst message hOffered
    refine ⟨hSome, hCapacity ▸ hFits, fun record hRecord => ?_⟩
    have hBooked : (message.time, record) ∈ (offeredTo dst incidents).flatMap Message.timed :=
      List.mem_flatMap.mpr ⟨message, hOffered, List.mem_map_of_mem hRecord⟩
    exact (hFaithful.origin (List.mem_append_left _ hBooked)).2

/-- Destinations that hand every message back and fail at every second offer, whatever it is. The
state is the number of offers so far. -/
def fickle : Medium Unit Nat (Message Nat UInt64) where
  note _ _ offers := offers
  offer _ slot offers :=
    { fault := if offers % 2 = 0 then none else some (), state := offers + 1, slot }

/-- Two destinations, one for the even and one for the odd numbers. -/
def twoWay : FanOut Nat UInt64 where
  lanes := [{ sender := { channel := 7, source := 0, target := 0, sink := none } },
    { sender := { channel := 7, source := 0, target := 1, sink := none } }]
  capacity := 3
  hash := id

/-- The second message finds the buffers of the first, and the first of the two cannot be sent. The
odd records of the first message still wait under its time, and the second is not begun. -/
def cutShort : List (Option (Message Nat UInt64)) :=
  [some { time := 1, data := [0, 1, 3, 2] }, some { time := 2, data := [5] }]

theorem bounded_and_labelled_cutShort :
    let after := (FanOut.pushAll fickle.audited cutShort (twoWay, 1, [])).1
    after.buffer 1 = [1, 3] ∧ (after.buffer 1).length < 3 ∧
      ∃ message, some message ∈ cutShort ∧ some 1 = some message.time ∧ 3 ∈ message.data := by
  intro after
  have hCreate : create [{ channel := 7, source := 0, target := 0, sink := none },
      { channel := 7, source := 0, target := 1, sink := none }] 3 id = .ok twoWay := rfl
  have hMany : 2 ≤ 2 := Nat.le_refl 2
  have hTime : after.current = some 1 := by decide +kernel
  have hBuffer : after.buffer 1 = [1, 3] := by decide +kernel
  obtain ⟨-, hRoom, -, hLabels, -⟩ := bounded_and_labelled fickle hCreate hMany cutShort 1
  have hRecord : 3 ∈ after.buffer 1 := by
    rw [hBuffer]
    decide
  have hLabel := (hLabels 1 3 hRecord).2
  rw [hTime] at hLabel
  exact ⟨hBuffer, hRoom 1, hLabel⟩

end FanOut

end Dataflow
