import Dataflow.Proofs.FanOut.Transcript
import Mathlib.Data.List.SplitBy

/-! What a distributor with several destinations sends when none of them fails, batch by batch. The
slots pushed so far fall into stretches of messages of one time. Of each stretch every destination
gets its records in full batches as they fill up, and the shorter rest when the stretch ends. -/
namespace Dataflow.FanOut

variable {ε σ T R : Type}

section Batches

variable {capacity : Nat}

/-- Consecutive batches of exactly `capacity` records, as many as the records give. -/
def fullBatches (capacity : Nat) (records : List R) : List (List R) :=
  (List.range (records.length / capacity)).map fun n =>
    (records.drop (n * capacity)).take capacity

def leftover (capacity : Nat) (records : List R) : List R :=
  records.drop (records.length / capacity * capacity)

/-- The batches of records. What is left behind the full ones makes a shorter one, but only when no
more records can come, and only if anything is left. -/
def batches (capacity : Nat) (closed : Bool) (records : List R) : List (List R) :=
  fullBatches capacity records ++
    if closed = true ∧ leftover capacity records ≠ [] then [leftover capacity records] else []

/-- The number of records left over is the remainder. -/
theorem length_leftover (capacity : Nat) (records : List R) :
    (leftover capacity records).length = records.length % capacity := by
  rw [leftover, List.length_drop, Nat.mul_comm, Nat.mod_eq_sub]

/-- The record that fills a batch makes one more of them. -/
theorem succ_div_of_full {n : Nat} (h : n % capacity + 1 = capacity) :
    (n + 1) / capacity = n / capacity + 1 := by
  apply Nat.succ_div_of_dvd
  refine ⟨n / capacity + 1, ?_⟩
  have hSplit := Nat.div_add_mod n capacity
  rw [Nat.mul_add_one]
  omega

/-- A record that fills no batch makes no more of them. -/
theorem succ_div_of_room {n : Nat} (h : n % capacity + 1 < capacity) :
    (n + 1) / capacity = n / capacity := by
  have hSplit := Nat.div_add_mod' n capacity
  apply Nat.div_eq_of_lt_le
  · omega
  · rw [Nat.add_one_mul]
    omega

/-- The full batches of the first records are among those of all. -/
theorem fullBatches_prefix (records : List R) (record : R) :
    (List.range (records.length / capacity)).map
        (fun n => ((records ++ [record]).drop (n * capacity)).take capacity) =
      fullBatches capacity records := by
  apply List.map_congr_left
  intro n hn
  have hLast : (n + 1) * capacity ≤ records.length :=
    (Nat.mul_le_mul_right capacity (List.mem_range.mp hn)).trans (Nat.div_mul_le_self _ _)
  rw [Nat.add_one_mul] at hLast
  rw [List.drop_append_of_le_length (by omega), List.take_append_of_le_length]
  rw [List.length_drop]
  omega

theorem drop_concat (records : List R) (record : R) :
    (records ++ [record]).drop (records.length / capacity * capacity) =
      leftover capacity records ++ [record] :=
  List.drop_append_of_le_length (Nat.div_mul_le_self _ _)

/-- A record that fills what is left to a batch. -/
theorem batches_concat_of_full {records : List R}
    (h : (leftover capacity records).length + 1 = capacity) (record : R) :
    fullBatches capacity (records ++ [record]) =
        fullBatches capacity records ++ [leftover capacity records ++ [record]] ∧
      leftover capacity (records ++ [record]) = [] := by
  have hBatch : (leftover capacity records ++ [record]).length = capacity := by simpa using h
  rw [length_leftover] at h
  have hCount : (records ++ [record]).length / capacity = records.length / capacity + 1 := by
    rw [List.length_append, List.length_singleton, succ_div_of_full h]
  constructor
  · rw [fullBatches, hCount, List.range_succ, List.map_append, fullBatches_prefix,
      List.map_singleton, drop_concat, List.take_of_length_le hBatch.le]
  · rw [leftover, hCount, Nat.add_one_mul, ← List.drop_drop, drop_concat,
      List.drop_of_length_le hBatch.le]

/-- A record that still leaves room. -/
theorem batches_concat_of_room {records : List R}
    (h : (leftover capacity records).length + 1 < capacity) (record : R) :
    fullBatches capacity (records ++ [record]) = fullBatches capacity records ∧
      leftover capacity (records ++ [record]) = leftover capacity records ++ [record] := by
  rw [length_leftover] at h
  have hCount : (records ++ [record]).length / capacity = records.length / capacity := by
    rw [List.length_append, List.length_singleton, succ_div_of_room h]
  constructor
  · rw [fullBatches, hCount, fullBatches_prefix]
  · rw [leftover, hCount, drop_concat]

/-- The records left over do not make a batch. -/
theorem length_leftover_lt (h : 0 < capacity) (records : List R) :
    (leftover capacity records).length < capacity := by
  rw [length_leftover]
  exact Nat.mod_lt _ h

end Batches

section Stretches

variable [DecidableEq T]

/-- Whether a slot belongs to the same stretch as the slot before it. -/
def continues : Option (Message T R) → Option (Message T R) → Bool
  | some earlier, some later => earlier.time = later.time
  | _, _ => false

/-- The longest stretches of messages of one time. An empty slot is a stretch of its own. -/
def stretches (slots : List (Option (Message T R))) : List (List (Option (Message T R))) :=
  slots.splitBy continues

/-- A slot that continues the last stretch lengthens it. -/
theorem stretches_concat_of_continues {slots : List (Option (Message T R))}
    {before : List (List (Option (Message T R)))} {run : List (Option (Message T R))}
    (h : stretches slots = before ++ [run]) {earlier slot : Option (Message T R)}
    (hLast : slots.getLast? = some earlier) (hContinues : continues earlier slot = true) :
    stretches (slots ++ [slot]) = before ++ [run ++ [slot]] := by
  obtain ⟨hSlots, hNil, hChains, hBreaks⟩ := List.splitBy_eq_iff.mp h
  have hRun : run ≠ [] := fun hEmpty => hNil (by simp [hEmpty])
  have hEnd : run.getLast? = some earlier := by
    rw [hSlots, List.flatten_append, List.flatten_singleton,
      List.getLast?_append_of_ne_nil _ hRun] at hLast
    exact hLast
  apply List.splitBy_eq_iff.mpr
  refine ⟨by simp [hSlots], ?_, ?_, ?_⟩
  · intro hMem
    rcases List.mem_append.mp hMem with hBefore | hLonger
    · exact hNil (List.mem_append_left _ hBefore)
    · simp at hLonger
  · intro other hOther
    rcases List.mem_append.mp hOther with hBefore | hLonger
    · exact hChains other (List.mem_append_left _ hBefore)
    · rw [List.mem_singleton.mp hLonger]
      apply List.IsChain.append (hChains run (by simp)) (List.isChain_singleton slot)
      intro x hx y hy
      rw [hEnd] at hx
      simp at hx hy
      rw [← hx, ← hy]
      exact hContinues
  · rw [List.isChain_append] at hBreaks ⊢
    obtain ⟨hBefore, -, hJoin⟩ := hBreaks
    refine ⟨hBefore, List.isChain_singleton _, ?_⟩
    intro x hx y hy
    obtain ⟨hX, hY, hBreak⟩ := hJoin x hx run (by simp)
    simp at hy
    subst hy
    refine ⟨hX, by simp, ?_⟩
    rw [List.head_append_of_ne_nil hRun]
    exact hBreak

/-- A slot that does not continue the last stretch begins another. -/
theorem stretches_concat_of_break {slots : List (Option (Message T R))}
    {slot : Option (Message T R)}
    (h : ∀ earlier ∈ slots.getLast?, continues earlier slot = false) :
    stretches (slots ++ [slot]) = stretches slots ++ [[slot]] := by
  rw [stretches, List.splitBy_append_cons [] h]
  rfl

end Stretches

variable {medium : Medium ε σ (Message T R)} {transcript : σ → List (Nat × Option (Message T R))}
  {hash : R → UInt64} {peers capacity : Nat}

def contents (slots : List (Option (Message T R))) : List R :=
  slots.flatMap fun slot => slot.toList.flatMap Message.data

def routedTo (hash : R → UInt64) (peers dst : Nat) (records : List R) : List R :=
  records.filter fun record => (hash record).toNat % peers = dst

/-- A record goes to its own destination and no other. -/
theorem routedTo_concat (hash : R → UInt64) (peers dst : Nat) (records : List R) (record : R) :
    routedTo hash peers dst (records ++ [record]) =
      routedTo hash peers dst records ++
        if dst = (hash record).toNat % peers then [record] else [] := by
  rw [routedTo, routedTo, List.filter_append]
  by_cases h : dst = (hash record).toNat % peers
  · simp [h]
  · simp [h, Ne.symm h]

/-- A record that fills its buffer makes it go out. -/
theorem put_of_full (medium : Medium ε σ (Message T R)) (time : T) (record : R) {fan : FanOut T R}
    (hRoute : fan.route record < fan.peers) (state : σ)
    (h : fan.capacity ≤ (fan.buffer (fan.route record)).length + 1) :
    put medium time record (fan, state) =
      flush medium time (fan.route record) (fan.append (fan.route record) record, state) := by
  have hLane : fan.route record < (fan.append (fan.route record) record).peers := by
    rw [peers, append, List.length_modify]
    exact hRoute
  rw [put_eq]
  apply if_pos
  rw [buffered?_of_lt hLane, buffer_append hRoute, if_pos rfl, List.length_append]
  exact decide_eq_true h

/-- A record that leaves room in its buffer waits. -/
theorem put_of_room (medium : Medium ε σ (Message T R)) (time : T) (record : R) {fan : FanOut T R}
    (hRoute : fan.route record < fan.peers) (state : σ)
    (h : (fan.buffer (fan.route record)).length + 1 < fan.capacity) :
    put medium time record (fan, state) =
      { state := (fan.append (fan.route record) record, state) } := by
  have hLane : fan.route record < (fan.append (fan.route record) record).peers := by
    rw [peers, append, List.length_modify]
    exact hRoute
  rw [put_eq]
  apply if_neg
  rw [buffered?_of_lt hLane, buffer_append hRoute, if_pos rfl, List.length_append]
  exact fun hFull => absurd (of_decide_eq_true hFull) (Nat.not_le.mpr h)

/-- A distributor in the middle of a stretch that began at the state `start`. Of the records of the
stretch the full batches have been sent, and what is left waits. -/
structure Filling (transcript : σ → List (Nat × Option (Message T R))) (hash : R → UInt64)
    (peers capacity : Nat) (start : σ) (time : T) (records : List R) (state : FanOut T R × σ) :
    Prop where
  shape : state.1.hash = hash ∧ state.1.capacity = capacity ∧ state.1.peers = peers
  current : state.1.current = some time
  waiting : ∀ dst, state.1.buffer dst = leftover capacity (routedTo hash peers dst records)
  shipped : Shipped transcript start state.2 fun dst =>
    (fullBatches capacity (routedTo hash peers dst records)).map fun batch => (time, batch)

namespace Filling

variable {start : σ} {time : T} {records : List R} {fan : FanOut T R} {state : σ}

/-- A stretch begins with nothing waiting. -/
theorem begin (hShape : fan.hash = hash ∧ fan.capacity = capacity ∧ fan.peers = peers)
    (hEmpty : ∀ dst, fan.buffer dst = []) (time : T) (state : σ) :
    Filling transcript hash peers capacity state time []
      ({ fan with current := some time }, state) where
  shape := hShape
  current := rfl
  waiting dst := by
    change fan.buffer dst = leftover capacity []
    rw [hEmpty]
    simp [leftover]
  shipped := by
    simp only [routedTo, List.filter_nil, fullBatches, List.length_nil, Nat.zero_div,
      List.range_zero, List.map_nil]
    exact .rest transcript state

/-- One more record of the stretch. Its buffer is sent if that makes a full batch. -/
theorem put (h : Filling transcript hash peers capacity start time records (fan, state))
    (hSteady : medium.Steady) (hTranscript : medium.Transcribes transcript)
    (hPeers : 0 < peers) (hPositive : 0 < capacity) (record : R) :
    (FanOut.put medium time record (fan, state)).fault = none ∧
      Filling transcript hash peers capacity start time (records ++ [record])
        (FanOut.put medium time record (fan, state)).state := by
  obtain ⟨hHash, hCapacity, hCount⟩ := h.shape
  dsimp only at hHash hCapacity hCount
  let target := fan.route record
  have hTarget : target = (hash record).toNat % peers := by
    simp only [target, route, hHash, hCount, Hash.destination]
  have hRoute : target < fan.peers := by
    rw [hTarget, hCount]
    exact Nat.mod_lt _ hPeers
  have hShape := (kept_shape medium hash capacity peers).put time record fan state h.shape
  have hCurrent := (put_current medium time record fan state).trans h.current
  have hBuffer (dst : Nat) : (fan.append target record).buffer dst =
      leftover capacity (routedTo hash peers dst records) ++
        if dst = target then [record] else [] := by
    rw [buffer_append hRoute, h.waiting dst]
  have hRouted (dst : Nat) : routedTo hash peers dst (records ++ [record]) =
      routedTo hash peers dst records ++ if dst = target then [record] else [] := by
    rw [hTarget]
    exact routedTo_concat hash peers dst records record
  have hLeft := length_leftover_lt hPositive (routedTo hash peers target records)
  by_cases hFull : (leftover capacity (routedTo hash peers target records)).length + 1 = capacity
  · have hPut := put_of_full medium time record hRoute state
      (by rw [h.waiting, hCapacity]; exact hFull.ge)
    obtain ⟨hBatches, hNothing⟩ := batches_concat_of_full hFull record
    rw [hPut] at hShape hCurrent ⊢
    refine ⟨flush_fault hSteady time target _ state, hShape, hCurrent, fun dst => ?_, ?_⟩
    · rw [flush_buffer, hRouted, hBuffer]
      by_cases hDst : dst = target <;> simp [hDst, target, hNothing]
    · have hFlush := flush_shipped hTranscript time target (fan.append target record) state
      refine (h.shipped.trans hFlush).congr fun dst => ?_
      rw [hRouted, hBuffer]
      by_cases hDst : dst = target <;> simp [hDst, hBatches]
  · have hRoom :
        (leftover capacity (routedTo hash peers target records)).length + 1 < capacity := by
      omega
    have hPut := put_of_room medium time record hRoute state
      (by rw [h.waiting, hCapacity]; exact hRoom)
    obtain ⟨hBatches, hMore⟩ := batches_concat_of_room hRoom record
    rw [hPut] at hShape hCurrent ⊢
    refine ⟨rfl, hShape, hCurrent, fun dst => ?_, h.shipped.congr fun dst => ?_⟩
    · rw [hRouted, hBuffer]
      by_cases hDst : dst = target <;> simp [hDst, hMore]
    · rw [hRouted]
      by_cases hDst : dst = target <;> simp [hDst, hBatches]

/-- A stretch goes on with the records that are dealt. -/
theorem deal (h : Filling transcript hash peers capacity start time records (fan, state))
    (hSteady : medium.Steady) (hTranscript : medium.Transcribes transcript)
    (hPeers : 0 < peers) (hPositive : 0 < capacity) (more : List R) :
    (FanOut.deal medium time more (fan, state)).1.fault = none ∧
      Filling transcript hash peers capacity start time (records ++ more)
        (FanOut.deal medium time more (fan, state)).1.state := by
  induction more generalizing records fan state with
  | nil =>
      rw [List.append_nil]
      exact ⟨rfl, h⟩
  | cons record rest ih =>
      obtain ⟨hFault, hPut⟩ := h.put hSteady hTranscript hPeers hPositive record
      rw [deal_cons_of_none hFault, ← List.singleton_append, ← List.append_assoc]
      exact ih hPut

/-- When the stretch is over, what is left goes out as well. -/
theorem flushBuffers (h : Filling transcript hash peers capacity start time records (fan, state))
    (hSteady : medium.Steady) (hTranscript : medium.Transcribes transcript) :
    (FanOut.flushBuffers medium (fan, state)).fault = none ∧
      (∀ dst, (FanOut.flushBuffers medium (fan, state)).state.1.buffer dst = []) ∧
      Shipped transcript start (FanOut.flushBuffers medium (fan, state)).state.2 fun dst =>
        (batches capacity true (routedTo hash peers dst records)).map fun batch =>
          (time, batch) := by
  have hFault : (FanOut.flushBuffers medium (fan, state)).fault = none := by
    rw [flushBuffers_of_current h.current]
    exact flushEach_fault hSteady time _ fan state
  have hEmpty (dst : Nat) : dst ∉ List.range fan.peers → fan.buffer dst = [] := fun hRange =>
    buffer_of_le (Nat.le_of_not_lt fun hLt => hRange (List.mem_range.mpr hLt))
  refine ⟨hFault, fun dst => ?_, ?_⟩
  · rw [flushBuffers_of_current h.current] at hFault ⊢
    rw [flushEach_buffer hFault]
    split
    · rfl
    · rename_i hRange
      exact hEmpty dst hRange
  · rw [flushBuffers_of_current h.current]
    have hTargets : (List.range fan.peers).Nodup := List.nodup_range
    have hFlush := flushEach_shipped hSteady hTranscript time hTargets fan state
    refine (h.shipped.trans hFlush).congr fun dst => ?_
    have hWaiting : fan.buffer dst = leftover capacity (routedTo hash peers dst records) :=
      h.waiting dst
    rw [batches, List.map_append, ← hWaiting]
    by_cases hNothing : fan.buffer dst = []
    · simp [hNothing]
    · have hRange : dst ∈ List.range fan.peers := by_contra fun hOut => hNothing (hEmpty dst hOut)
      simp [hNothing, hRange]

end Filling

/-- What a stretch of slots makes a distributor offer, over all destinations. The flag says whether
the stretch is over. -/
inductive Delivered (hash : R → UInt64) (peers capacity : Nat) (closed : Bool) :
    List (Option (Message T R)) → List (Nat × Option (Message T R)) → Prop
  /-- Messages of one time: each destination is offered its records in batches of that time. -/
  | messages {first : Message T R} {rest : List (Option (Message T R))}
      {entries : List (Nat × Option (Message T R))} (hMessages : ∀ entry ∈ entries, entry.2.isSome)
      (hParcels : ∀ dst, parcelsTo dst entries =
        (batches capacity closed (routedTo hash peers dst (contents (some first :: rest)))).map
          fun batch => (first.time, batch)) :
      Delivered hash peers capacity closed (some first :: rest) entries
  /-- An empty slot: each destination is offered an empty slot. -/
  | flush : Delivered hash peers capacity closed [none]
      ((List.range peers).map fun dst => (dst, none))

section Standing

variable [DecidableEq T]

/-- Where a distributor stands after the given slots. All stretches are over but perhaps the last,
which may be in the middle. -/
inductive Standing (transcript : σ → List (Nat × Option (Message T R))) (hash : R → UInt64)
    (peers capacity : Nat) (slots : List (Option (Message T R))) (state : FanOut T R × σ) : Prop
  | idle (segments : List (List (Nat × Option (Message T R))))
      (hShape : state.1.hash = hash ∧ state.1.capacity = capacity ∧ state.1.peers = peers)
      (hStretches : stretches slots = [] ∨ ∃ before, stretches slots = before ++ [[none]])
      (hTime : state.1.current = none) (hEmpty : ∀ dst, state.1.buffer dst = [])
      (hSegments :
        List.Forall₂ (Delivered hash peers capacity true) (stretches slots) segments)
      (hTranscript : transcript state.2 = segments.flatten)
  | filling (before : List (List (Option (Message T R))))
      (segments : List (List (Nat × Option (Message T R)))) (start : σ) (first last : Message T R)
      (rest : List (Option (Message T R)))
      (hStretches : stretches slots = before ++ [some first :: rest])
      (hLast : slots.getLast? = some (some last)) (hTime : last.time = first.time)
      (hSegments : List.Forall₂ (Delivered hash peers capacity true) before segments)
      (hTranscript : transcript start = segments.flatten)
      (hFilling : Filling transcript hash peers capacity start first.time
        (contents (some first :: rest)) state)

variable {slots : List (Option (Message T R))} {fan : FanOut T R} {state : σ}

theorem Standing.shape (h : Standing transcript hash peers capacity slots (fan, state)) :
    fan.hash = hash ∧ fan.capacity = capacity ∧ fan.peers = peers := by
  cases h with
  | idle segments hShape => exact hShape
  | filling before segments start first last rest hStretches hLast hTime hSegments hTranscript
      hFilling => exact hFilling.shape

/-- Once all buffers are flushed, every stretch is over. -/
theorem Standing.flushBuffers (h : Standing transcript hash peers capacity slots (fan, state))
    (hSteady : medium.Steady) (hTranscript : medium.Transcribes transcript) :
    let flushed := FanOut.flushBuffers medium (fan, state)
    flushed.fault = none ∧ (∀ dst, flushed.state.1.buffer dst = []) ∧
      (flushed.state.1.hash = hash ∧ flushed.state.1.capacity = capacity ∧
        flushed.state.1.peers = peers) ∧
      ∃ segments, List.Forall₂ (Delivered hash peers capacity true) (stretches slots) segments ∧
        transcript flushed.state.2 = segments.flatten := by
  intro flushed
  have hShape := (kept_shape medium hash capacity peers).stable.flushBuffers fan state h.shape
  cases h with
  | idle segments hShape hStretches hTime hEmpty hSegments hWritten =>
      have hFlushed : flushed = { state := (fan, state) } := flushBuffers_of_none hTime medium state
      rw [hFlushed]
      exact ⟨rfl, hEmpty, hShape, segments, hSegments, hWritten⟩
  | filling before segments start first last rest hStretches hLast hTime hSegments hWritten
      hFilling =>
      obtain ⟨hFault, hEmpty, entries, hEntries, hMessages, hParcels⟩ :=
        hFilling.flushBuffers hSteady hTranscript
      refine ⟨hFault, hEmpty, hShape, segments ++ [entries], ?_, ?_⟩
      · rw [hStretches]
        exact List.rel_append hSegments (.cons (.messages hMessages hParcels) .nil)
      · rw [hEntries, hWritten, List.flatten_append, List.flatten_singleton]

/-- Where the time is the same nothing goes out. -/
theorem turn_of_current {fan : FanOut T R} {time : T} (h : fan.current = some time)
    (medium : Medium ε σ (Message T R)) (state : σ) :
    turn medium time (fan, state) = { state := (fan, state) } :=
  turn_of_same (by simp [h]) medium state

/-- Without a current time there is nothing to flush, so the flush can be said to take place. -/
theorem turn_of_ne {fan : FanOut T R} {time : T} (h : fan.current ≠ some time)
    (medium : Medium ε σ (Message T R)) (state : σ) :
    turn medium time (fan, state) = FanOut.flushBuffers medium (fan, state) := by
  cases hTime : fan.current with
  | none => rw [flushBuffers_of_none hTime, turn_of_same (by simp [hTime])]
  | some current =>
      have hNe : current ≠ time := fun hSame => h (hTime.trans (congrArg some hSame))
      exact turn_of_other (by simp [hTime, hNe]) medium state

/-- If the last slot holds a message, its time is the current one. -/
theorem Standing.current_of_last (h : Standing transcript hash peers capacity slots (fan, state))
    {message : Message T R} (hLast : slots.getLast? = some (some message)) :
    fan.current = some message.time := by
  cases h with
  | idle segments hShape hStretches hTime hEmpty hSegments hTranscript =>
      -- The last stretch, if there is one, is an empty slot.
      rw [← List.flatten_splitBy continues slots] at hLast
      rcases hStretches with hNothing | ⟨before, hBefore⟩
      · rw [show slots.splitBy continues = _ from hNothing] at hLast
        cases hLast
      · rw [show slots.splitBy continues = _ from hBefore] at hLast
        simp at hLast
  | filling before segments start first last rest hStretches hEnd hTime hSegments hTranscript
      hFilling =>
      rw [hEnd, Option.some.injEq, Option.some.injEq] at hLast
      rw [← hLast, hTime]
      exact hFilling.current

omit [DecidableEq T] in
theorem contents_concat (slots : List (Option (Message T R))) (message : Message T R) :
    contents (slots ++ [some message]) = contents slots ++ message.data := by
  simp [contents]

variable [Husk R]

/-- An empty slot ends whatever was going on. -/
theorem Standing.push_none (h : Standing transcript hash peers capacity slots (fan, state))
    (hSteady : medium.Steady) (hTranscript : medium.Transcribes transcript) (hMany : peers ≠ 1) :
    (push medium none (fan, state)).fault = none ∧
      Standing transcript hash peers capacity (slots ++ [none])
        (push medium none (fan, state)).state := by
  obtain ⟨hHash, hCapacity, hPeers⟩ := h.shape
  obtain ⟨hFault, hEmpty, hShape, segments, hSegments, hWritten⟩ :=
    h.flushBuffers hSteady hTranscript
  obtain ⟨hClosed, hEntries⟩ := closeEach_transcript hSteady hTranscript
    (List.range (FanOut.flushBuffers medium (fan, state)).state.1.peers)
    { (FanOut.flushBuffers medium (fan, state)).state.1 with current := none }
    (FanOut.flushBuffers medium (fan, state)).state.2
  have hStretches : stretches (slots ++ [none]) = stretches slots ++ [[none]] :=
    stretches_concat_of_break fun earlier _ => by cases earlier <;> rfl
  rw [FanOut.push_none medium (hPeers ▸ hMany), close_of_none hFault]
  refine ⟨hClosed, .idle (segments ++ [(List.range peers).map fun dst => (dst, none)])
    ?_ (.inr ⟨_, hStretches⟩) ?_ ?_ ?_ ?_⟩
  · rw [closeEach_fan]
    exact hShape
  · rw [closeEach_fan]
  · rw [closeEach_fan]
    exact hEmpty
  · rw [hStretches]
    exact List.rel_append hSegments (.cons .flush .nil)
  · rw [hEntries, hWritten, hShape.2.2, List.flatten_append, List.flatten_singleton]

/-- A message of the current time belongs to the stretch that is going on. -/
theorem Standing.push_same (h : Standing transcript hash peers capacity slots (fan, state))
    (hSteady : medium.Steady) (hTranscript : medium.Transcribes transcript) (hPeers : 0 < peers)
    (hMany : peers ≠ 1) (hPositive : 0 < capacity) {message : Message T R}
    (hTime : fan.current = some message.time) :
    (push medium (some message) (fan, state)).fault = none ∧
      Standing transcript hash peers capacity (slots ++ [some message])
        (push medium (some message) (fan, state)).state := by
  have hTurn := turn_of_current hTime medium state
  have hSame : { fan with current := some message.time } = fan := by rw [← hTime]
  rw [push_some medium message (h.shape.2.2 ▸ hMany),
    distribute_of_none (by rw [hTurn]), hTurn]
  cases h with
  | idle segments hShape hStretches hNone hEmpty hSegments hWritten =>
      exact absurd (hNone.symm.trans hTime) (Option.some_ne_none _).symm
  | filling before segments start first last rest hStretches hLast hFirst hSegments hWritten
      hFilling =>
      have hNow : first.time = message.time :=
        Option.some.inj (hFilling.current.symm.trans hTime)
      obtain ⟨hFault, hDealt⟩ :=
        hFilling.deal hSteady hTranscript hPeers hPositive message.data
      have hLonger : stretches (slots ++ [some message]) =
          before ++ [some first :: (rest ++ [some message])] :=
        stretches_concat_of_continues hStretches hLast (by simp [continues, hFirst, hNow])
      rw [hNow] at hFault hDealt
      dsimp only
      rw [hSame]
      refine ⟨hFault, .filling before segments start first message _ hLonger (by simp) hNow.symm
        hSegments hWritten ?_⟩
      rw [← List.cons_append, contents_concat, hNow]
      exact hDealt

/-- A message of another time begins a stretch, and what was left of the one before goes out. -/
theorem Standing.push_other (h : Standing transcript hash peers capacity slots (fan, state))
    (hSteady : medium.Steady) (hTranscript : medium.Transcribes transcript) (hPeers : 0 < peers)
    (hMany : peers ≠ 1) (hPositive : 0 < capacity) {message : Message T R}
    (hTime : fan.current ≠ some message.time) :
    (push medium (some message) (fan, state)).fault = none ∧
      Standing transcript hash peers capacity (slots ++ [some message])
        (push medium (some message) (fan, state)).state := by
  have hTurn := turn_of_ne hTime medium state
  obtain ⟨hFault, hEmpty, hShape, segments, hSegments, hWritten⟩ :=
    h.flushBuffers hSteady hTranscript
  have hBegun : Filling transcript hash peers capacity _ message.time [] _ :=
    .begin hShape hEmpty message.time (FanOut.flushBuffers medium (fan, state)).state.2
  obtain ⟨hDealt, hFilling⟩ := hBegun.deal hSteady hTranscript hPeers hPositive message.data
  have hStretches : stretches (slots ++ [some message]) = stretches slots ++ [[some message]] := by
    apply stretches_concat_of_break
    intro earlier hEarlier
    cases earlier with
    | none => rfl
    | some earlier =>
        apply decide_eq_false
        intro hSame
        exact hTime (hSame ▸ h.current_of_last hEarlier)
  rw [push_some medium message (h.shape.2.2 ▸ hMany),
    distribute_of_none (by rw [hTurn]; exact hFault), hTurn]
  refine ⟨hDealt, .filling (stretches slots) segments _ message message [] hStretches (by simp) rfl
    hSegments hWritten ?_⟩
  have hContents : contents [some message] = [] ++ message.data := by simp [contents]
  rw [hContents]
  exact hFilling

/-- After every push the distributor stands where the slots so far have brought it. -/
theorem Standing.push (h : Standing transcript hash peers capacity slots (fan, state))
    (hSteady : medium.Steady) (hTranscript : medium.Transcribes transcript) (hPeers : 0 < peers)
    (hMany : peers ≠ 1) (hPositive : 0 < capacity) (slot : Option (Message T R)) :
    (FanOut.push medium slot (fan, state)).fault = none ∧
      Standing transcript hash peers capacity (slots ++ [slot])
        (FanOut.push medium slot (fan, state)).state := by
  cases slot with
  | none => exact h.push_none hSteady hTranscript hMany
  | some message =>
      by_cases hTime : fan.current = some message.time
      · exact h.push_same hSteady hTranscript hPeers hMany hPositive hTime
      · exact h.push_other hSteady hTranscript hPeers hMany hPositive hTime

/-- It does so after any slots. -/
theorem Standing.pushAll {hash : R → UInt64} {start : FanOut T R × σ}
    (h : Standing transcript hash peers capacity [] start) (hSteady : medium.Steady)
    (hTranscript : medium.Transcribes transcript) (hPeers : 0 < peers) (hMany : peers ≠ 1)
    (hPositive : 0 < capacity) (slots : List (Option (Message T R))) :
    Standing transcript hash peers capacity slots (FanOut.pushAll medium slots start) := by
  induction slots using List.reverseRecOn with
  | nil => exact h
  | append_singleton slots slot ih =>
      rw [pushAll_append]
      exact (ih.push hSteady hTranscript hPeers hMany hPositive slot).2

omit [Husk R] in
/-- A new distributor stands at the start. -/
theorem Standing.create {senders : List Sender} {fan : FanOut T R}
    (hCreate : create senders capacity hash = .ok fan) {state : σ}
    (hNothing : transcript state = []) :
    Standing transcript hash senders.length capacity [] (fan, state) := by
  obtain ⟨hSenders, hHash, hTime, hBuffer⟩ := create_ok hCreate
  have hPeers : fan.peers = senders.length := by rw [← hSenders, List.length_map, peers]
  exact .idle [] ⟨hHash, (create_capacity hCreate).2.2, hPeers⟩ (.inl rfl) hTime hBuffer .nil
    hNothing

omit [Husk R] in
/-- Every stretch but the last is over. -/
theorem Standing.delivered (h : Standing transcript hash peers capacity slots (fan, state)) :
    ∃ finished ongoing : List (List (Nat × Option (Message T R))),
      transcript state = (finished ++ ongoing).flatten ∧
        List.Forall₂ (Delivered hash peers capacity true) (stretches slots).dropLast finished ∧
        List.Forall₂ (Delivered hash peers capacity false) (stretches slots).getLast?.toList
          ongoing := by
  cases h with
  | idle segments hShape hStretches hTime hEmpty hSegments hWritten =>
      rcases hStretches with hNothing | ⟨before, hBefore⟩
      · rw [hNothing] at hSegments ⊢
        cases hSegments
        exact ⟨[], [], hWritten, .nil, .nil⟩
      · rw [hBefore] at hSegments ⊢
        refine ⟨segments.take before.length, segments.drop before.length, ?_, ?_, ?_⟩
        · rw [List.take_append_drop, hWritten]
        · have hFinished := List.forall₂_take before.length hSegments
          rw [List.take_left] at hFinished
          rw [List.dropLast_concat]
          exact hFinished
        · have hOngoing := List.forall₂_drop before.length hSegments
          rw [List.drop_left] at hOngoing
          rw [List.getLast?_concat, Option.toList_some]
          -- An empty slot is delivered in the same way whether or not it is the last.
          generalize segments.drop before.length = rest at hOngoing ⊢
          cases hOngoing with
          | cons hFlush hNone =>
              cases hNone
              cases hFlush
              exact .cons .flush .nil
  | filling before segments start first last rest hStretches hLast hTime hSegments hWritten
      hFilling =>
      obtain ⟨entries, hEntries, hMessages, hParcels⟩ := hFilling.shipped
      refine ⟨segments, [entries], ?_, ?_, ?_⟩
      · rw [hEntries, hWritten, List.flatten_append, List.flatten_singleton]
      · rw [hStretches, List.dropLast_concat]
        exact hSegments
      · rw [hStretches, List.getLast?_concat, Option.toList_some]
        refine .cons (.messages hMessages fun dst => ?_) .nil
        simp [hParcels, batches]

/-- Nothing that was offered is taken back. -/
theorem push_transcript_prefix (hTranscript : medium.Transcribes transcript)
    (slot : Option (Message T R)) (fan : FanOut T R) (state : σ) :
    transcript state <+: transcript (FanOut.push medium slot (fan, state)).state.2 := by
  have hKept : Kept medium fun after : FanOut T R × σ => transcript state <+: transcript after.2 :=
    { rebuffer := fun _ _ _ _ _ h => h
      send := by
        intro fan after dst lane message hLane h
        obtain ⟨entries, hEntries, -⟩ := hTranscript.push dst message lane.sender after
        exact h.trans ⟨entries, hEntries.symm⟩
      pass := by
        intro fan after dst h
        exact h.trans ⟨[(dst, none)], (hTranscript.offer dst none after).symm⟩ }
  exact hKept.push slot fan state (List.prefix_refl _)

/-- The exact batching of a distributor with several destinations, none of which ever fails,
whatever they do with the messages. No push fails, and every push only adds to what was offered.
After any slots, what was offered over all destinations is one segment for each stretch, in order. A
stretch of messages makes each destination be offered its records of the stretch at their time, in
batches of exactly the capacity; once the stretch is over, and not before, the records left over go
out in a shorter batch. An empty slot makes each destination be offered an empty slot. That the
run is audited has no bearing on it. -/
theorem exact_batching (medium : Medium ε σ (Message T R)) (hSteady : medium.Steady)
    {senders : List Sender} {capacity : Nat} {hash : R → UInt64} {fan : FanOut T R}
    (hCreate : create senders capacity hash = .ok fan) (hMany : 2 ≤ senders.length)
    (slots : List (Option (Message T R))) (start : σ) :
    let run slots := FanOut.pushAll medium.audited slots (fan, start, [])
    let transcript slots := offersIn (run slots).2.2
    FanOut.pushAll medium slots (fan, start) = ((run slots).1, (run slots).2.1) ∧
    (∀ slot, (FanOut.push medium slot (FanOut.pushAll medium slots (fan, start))).fault = none) ∧
    (∀ slot, transcript slots <+: transcript (slots ++ [slot])) ∧
    ∃ finished ongoing, transcript slots = (finished ++ ongoing).flatten ∧
      List.Forall₂ (Delivered hash senders.length capacity true) (stretches slots).dropLast
        finished ∧
      List.Forall₂ (Delivered hash senders.length capacity false) (stretches slots).getLast?.toList
        ongoing := by
  intro run transcript
  have hWritten := medium.audited_transcribes
  have hSteady' : medium.audited.Steady := hSteady.audited
  have hPeers : 0 < senders.length := by omega
  have hCapacity := (create_capacity hCreate).2.1
  have hStart : Standing (fun state => offersIn state.2) hash senders.length capacity []
      (fan, start, ([] : List (Incident ε (Message T R)))) := Standing.create hCreate rfl
  have hStanding := hStart.pushAll hSteady' hWritten hPeers (by omega) hCapacity slots
  have hView : FanOut.pushAll medium slots (fan, start) = ((run slots).1, (run slots).2.1) :=
    pushAll_view medium.audited_morphism slots (fan, start, [])
  refine ⟨hView, fun slot => ?_, fun slot => ?_, hStanding.delivered⟩
  · have hPush := push_through medium.audited_morphism slot (run slots)
    have hRun : through id Prod.fst (run slots) = FanOut.pushAll medium slots (fan, start) := by
      rw [hView]
      exact Prod.ext (redirect_id _) rfl
    rw [hRun, Offered.map_id] at hPush
    rw [hPush]
    exact (hStanding.push hSteady' hWritten hPeers (by omega) hCapacity slot).1
  · have hMore : run (slots ++ [slot]) = (FanOut.push medium.audited slot (run slots)).state :=
      pushAll_append medium.audited slots [slot] _
    change transcript slots <+: offersIn (run (slots ++ [slot])).2.2
    rw [hMore]
    exact push_transcript_prefix hWritten slot (run slots).1 (run slots).2

end Standing

/-- Destinations that never fail. They take the message of every second offer and hand the others
back. The state is the number of offers so far. -/
def lenient : Medium Unit Nat (Message Nat UInt64) where
  note _ _ offers := offers
  offer _ slot offers := { state := offers + 1, slot := if offers % 2 = 0 then slot else none }

/-- The first two messages make one stretch. The third has no records, but it ends that stretch. -/
def mixed : List (Option (Message Nat UInt64)) :=
  [some { time := 1, data := [0, 1, 2] }, some { time := 1, data := [3, 4, 6] },
    some { time := 2, data := [] }, some { time := 1, data := [5] }, none]

theorem exact_batching_mixed :
    let transcript := offersIn (FanOut.pushAll lenient.audited mixed (twoWay, 0, [])).2.2
    (∀ slot, (FanOut.push lenient slot (FanOut.pushAll lenient mixed (twoWay, 0))).fault = none) ∧
      ∃ first others, transcript = first ++ others ∧
        parcelsTo 0 first = [(1, [0, 2, 4]), (1, [6])] ∧ parcelsTo 1 first = [(1, [1, 3])] := by
  intro transcript
  have hSteady : lenient.Steady := fun _ _ _ => rfl
  have hCreate : create [{ channel := 7, source := 0, target := 0, sink := none },
      { channel := 7, source := 0, target := 1, sink := none }] 3 id = .ok twoWay := rfl
  have hMany : 2 ≤ 2 := Nat.le_refl 2
  obtain ⟨-, hFault, -, finished, ongoing, hTranscript, hFinished, -⟩ :=
    exact_batching lenient hSteady hCreate hMany mixed 0
  have hStretches : (stretches mixed).dropLast =
      [some { time := 1, data := [0, 1, 2] }, some { time := 1, data := [3, 4, 6] }] ::
        [[some { time := 2, data := [] }], [some { time := 1, data := [5] }]] := by
    decide +kernel
  rw [hStretches] at hFinished
  refine ⟨hFault, ?_⟩
  cases hFinished with
  | @cons _ first _ others hFirst hOthers =>
      refine ⟨first, (others ++ ongoing).flatten, hTranscript, ?_⟩
      cases hFirst with
      | messages hMessages hParcels =>
          rw [hParcels, hParcels]
          decide +kernel

end Dataflow.FanOut
