import Dataflow.Proofs.FanOut.Batching
import Dataflow.Proofs.FanOut.Losses

/-! Producers may cut their messages as they like. A message has the same effects as two messages
of its time that hold its records between them, wherever the cut is, as long as no destination
fails. -/
namespace Dataflow

variable {ε σ T R : Type}

namespace FanOut

variable {medium : Medium ε σ (Message T R)}

/-- Records may be dealt in two parts if the first part goes well. -/
theorem deal_append_of_none {time : T} {first : List R} {state : FanOut T R × σ}
    (h : (deal medium time first state).1.fault = none) (second : List R) :
    deal medium time (first ++ second) state =
      deal medium time second (deal medium time first state).1.state := by
  induction first generalizing state with
  | nil => rfl
  | cons record rest ih =>
      cases hFault : (put medium time record state).fault with
      | some error =>
          rw [deal_cons_of_fault hFault] at h
          rw [hFault] at h
          cases h
      | none =>
          rw [deal_cons_of_none hFault] at h ⊢
          rw [List.cons_append, deal_cons_of_none hFault]
          exact ih h

section Steady

theorem put_fault (hSteady : medium.Steady) (time : T) (record : R) (fan : FanOut T R)
    (state : σ) : (put medium time record (fan, state)).fault = none := by
  rw [put_eq]
  dsimp only
  split
  · exact flush_fault hSteady time _ _ state
  · rfl

/-- Dealing goes well where no destination fails. -/
theorem deal_fault (hSteady : medium.Steady) (time : T) (records : List R)
    (state : FanOut T R × σ) : (deal medium time records state).1.fault = none := by
  induction records generalizing state with
  | nil => rfl
  | cons record rest ih =>
      rw [deal_cons_of_none (put_fault hSteady time record state.1 state.2)]
      exact ih _

variable [DecidableEq T]

theorem turn_fault (hSteady : medium.Steady) (time : T) (state : FanOut T R × σ) :
    (turn medium time state).fault = none := by
  unfold turn
  split
  · unfold flushBuffers
    split
    · exact flushEach_fault hSteady _ _ state.1 state.2
    · rfl
  · rfl

/-- If no destination fails, no message does. -/
theorem push_some_fault [Husk R] (hSteady : medium.Steady) (message : Message T R)
    {fan : FanOut T R} (hMany : fan.peers ≠ 1) (state : σ) :
    (push medium (some message) (fan, state)).fault = none := by
  have hDealt := congrArg Attempt.fault
    (distribute_of_none (turn_fault hSteady message.time (fan, state)))
  rw [push_some medium message hMany]
  exact hDealt.trans (deal_fault hSteady message.time message.data _)

end Steady

variable [DecidableEq T]

/-- A message of the current time is dealt at once. -/
theorem retimed_of_current (medium : Medium ε σ (Message T R)) {time : T}
    {state : FanOut T R × σ} (h : state.1.current = some time) :
    (turn medium time state).fault = none ∧ retimed medium time state = state := by
  have hTurn : turn medium time state = { state } := turn_of_same (by simp [h]) medium state.2
  rw [retimed, hTurn, ← h]
  exact ⟨rfl, rfl⟩

variable [Husk R]

/-- After the first part the time is set, so the second goes on where the first ended. -/
theorem distribute_parts {whole first second : Message T R} (hFirst : first.time = whole.time)
    (hSecond : second.time = whole.time) (hData : whole.data = first.data ++ second.data)
    {state : FanOut T R × σ} (hFault : (distribute medium first state).fault = none) :
    (distribute medium whole state).toAttempt =
      (distribute medium second (distribute medium first state).state).toAttempt := by
  cases hTurn : (turn medium whole.time state).fault with
  | some error =>
      rw [← hFirst] at hTurn
      rw [distribute_of_fault hTurn] at hFault
      exact absurd (hTurn.symm.trans hFault) (Option.some_ne_none _)
  | none =>
      let start := retimed medium whole.time state
      have hDealt : (distribute medium first state).toAttempt =
          (deal medium whole.time first.data start).1 := by
        rw [← hFirst] at hTurn
        rw [distribute_of_none hTurn, hFirst]
        rfl
      have hDone : (deal medium whole.time first.data start).1.fault = none := by
        rw [← hDealt]
        exact hFault
      have hCurrent : (deal medium whole.time first.data start).1.state.1.current =
          some second.time := by
        rw [hSecond]
        exact deal_current medium whole.time first.data start.1 start.2
      obtain ⟨hSame, hRetimed⟩ := retimed_of_current medium hCurrent
      have hWhole : (distribute medium whole state).toAttempt =
          (deal medium whole.time whole.data start).1 := distribute_of_none hTurn
      have hRest : (distribute medium second
          (deal medium whole.time first.data start).1.state).toAttempt =
            (deal medium second.time second.data
              (retimed medium second.time (deal medium whole.time first.data start).1.state)).1 :=
        distribute_of_none hSame
      rw [hWhole, congrArg Attempt.state hDealt, hRest, hRetimed, hSecond, hData,
        deal_append_of_none hDone]

/-- A message may be pushed in two parts if the first push goes well. -/
theorem push_parts {fan : FanOut T R} (hMany : fan.peers ≠ 1) {whole first second : Message T R}
    (hFirst : first.time = whole.time) (hSecond : second.time = whole.time)
    (hData : whole.data = first.data ++ second.data) {state : σ}
    (hFault : (push medium (some first) (fan, state)).fault = none) :
    (push medium (some whole) (fan, state)).toAttempt =
      (push medium (some second) (push medium (some first) (fan, state)).state).toAttempt := by
  have hBegun : (push medium (some first) (fan, state)).state.1.peers ≠ 1 := by
    rw [(push_shape medium (some first) fan state).2]
    exact hMany
  rw [push_some medium second hBegun]
  rw [push_some medium first hMany] at hFault ⊢
  rw [push_some medium whole hMany]
  exact distribute_parts hFirst hSecond hData hFault

/-- Destinations that never fail cannot tell how a producer cuts its records into messages. From any
state that a distributor reaches, a message and two messages of the same time that hold its records
between them lead to the same state, with the same buffers, the same time and the same counters, and
over all destinations the same events are noted and the same messages are offered, in the same order
and with the same stamps. -/
theorem cuts_immaterial (hSteady : medium.Steady) {senders : List Sender} {capacity : Nat}
    {hash : R → UInt64} {fan : FanOut T R} (hCreate : create senders capacity hash = .ok fan)
    (hMany : 2 ≤ senders.length) (slots : List (Option (Message T R))) (start : σ)
    {whole first second : Message T R} (hFirst : first.time = whole.time)
    (hSecond : second.time = whole.time) (hData : whole.data = first.data ++ second.data) :
    let reached := pushAll medium.audited slots (fan, start, [])
    let once := push medium.audited (some whole) reached
    let begun := push medium.audited (some first) reached
    let twice := push medium.audited (some second) begun.state
    pushAll medium slots (fan, start) = (reached.1, reached.2.1) ∧
      once.fault = none ∧ begun.fault = none ∧ twice.fault = none ∧ once.state = twice.state := by
  intro reached once begun twice
  have hReached : reached.1.peers ≠ 1 := by
    have hCount : reached.1.peers = fan.peers :=
      peers_pushAll medium.audited slots (fan, start, [])
    have hPeers : fan.peers = senders.length := by
      rw [← (create_ok hCreate).1, List.length_map, peers]
    omega
  have hOnce : once.fault = none := push_some_fault hSteady.audited whole hReached reached.2
  have hBegun : begun.fault = none := push_some_fault hSteady.audited first hReached reached.2
  have hParts : once.toAttempt = twice.toAttempt :=
    push_parts hReached hFirst hSecond hData hBegun
  exact ⟨pushAll_view medium.audited_morphism slots (fan, start, []), hOnce, hBegun,
    hParts ▸ hOnce, congrArg Attempt.state hParts⟩

/-- Records of another time wait, and a buffer fills up only in the second part. -/
theorem cuts_immaterial_pending :
    let whole : Message Nat UInt64 := { time := 2, data := [3, 5, 7, 4] }
    let first : Message Nat UInt64 := { time := 2, data := [3, 5] }
    let second : Message Nat UInt64 := { time := 2, data := [7, 4] }
    let reached := pushAll lenient.audited [some { time := 1, data := [0, 1] }] (twoWay, 0, [])
    let once := push lenient.audited (some whole) reached
    let begun := push lenient.audited (some first) reached
    let twice := push lenient.audited (some second) begun.state
    once.state = twice.state ∧
      (attemptsAt 1 twice.state.2.2).map (fun attempt => (attempt.1.seq, attempt.1.data)) =
        [(0, [1]), (1, [3, 5, 7])] := by
  intro whole first second reached once begun twice
  have hSteady : lenient.Steady := fun _ _ _ => rfl
  have hCreate : create [{ channel := 7, source := 0, target := 0, sink := none },
      { channel := 7, source := 0, target := 1, sink := none }] 3 id = .ok twoWay := rfl
  have hMany : 2 ≤ 2 := Nat.le_refl 2
  have hFirst : first.time = whole.time := rfl
  have hSecond : second.time = whole.time := rfl
  have hData : whole.data = first.data ++ second.data := rfl
  obtain ⟨-, -, -, -, hState⟩ := cuts_immaterial hSteady hCreate hMany
    [some { time := 1, data := [0, 1] }] 0 hFirst hSecond hData
  refine ⟨hState, ?_⟩
  decide +kernel

end FanOut

end Dataflow
