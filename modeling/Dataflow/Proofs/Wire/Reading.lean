import Dataflow.Proofs.Wire.Cursor
import Dataflow.Proofs.Wire.Number

/-! Calls on one buffer, of which some may fail. A call succeeds exactly if enough bytes remain, and
however calls that succeed and calls that fail follow one another, the bytes that they consume and
the bytes that remain are always the whole buffer. -/
namespace Dataflow.Wire

namespace Read

/-- Whether a word can hold the number of bytes that is asked for. -/
def Askable : Read → Prop
  | scalar _ => True
  | raw n => n < 2 ^ 64
  | sized => True

instance : DecidablePred Askable
  | scalar _ => isTrue trivial
  | raw n => inferInstanceAs (Decidable (n < 2 ^ 64))
  | sized => isTrue trivial

/-- How many of the unread bytes a call needs. A byte string needs those that its length announces,
and the length itself in any case. -/
def need : Read → Bytes → Nat
  | scalar s, _ => s.width
  | raw n, _ => n
  | sized, unread => 4 + LittleEndian.decode (unread.take 4)

/-- How many bytes a call consumes that then fails: the length of a byte string, if it is there. -/
def lost : Read → Bytes → Nat
  | scalar _, _ => 0
  | raw _, _ => 0
  | sized, unread => if 4 ≤ unread.length then 4 else 0

/-- Whether the result is what the block of bytes says that a call consumed: the number that it
spells, lowest byte first and in two's complement if the type has a sign, or a copy of it. -/
def Returns : (call : Read) → call.Result → Bytes → Prop
  | scalar s, value, block => s.number value =
      if s.isSigned then Int.bmod (LittleEndian.decode block) (256 ^ s.width)
      else (LittleEndian.decode block : Int)
  | raw _, copy, block => copy = block
  | sized, copy, block => copy = block.drop 4

/-- With enough bytes a call returns its value and consumes what it needs. -/
theorem reader_of_enough (call : Read) {unread : Bytes} (h : call.need unread ≤ unread.length) :
    ∃ value, call.reader unread = (.ok value, unread.drop (call.need unread)) ∧
      call.Returns value (unread.take (call.need unread)) := by
  cases call with
  | scalar s =>
      have hEnough : s.width ≤ unread.length := h
      have hBits : LittleEndian.decode (unread.take s.width) < 256 ^ s.width := by
        have hDigits := LittleEndian.decode_lt (unread.take s.width)
        rwa [List.length_take_of_le hEnough] at hDigits
      exact ⟨_, Reader.scalar_of_le hEnough, s.number_ofBits hBits⟩
  | raw n => exact ⟨_, Reader.raw_of_le h, rfl⟩
  | sized =>
      have hCount : 4 ≤ unread.length := Nat.le_trans (Nat.le_add_right _ _) h
      have hBlock : LittleEndian.decode (unread.take 4) ≤ (unread.drop 4).length := by
        rw [List.length_drop]
        exact Nat.le_sub_of_add_le' h
      refine ⟨(unread.drop 4).take (LittleEndian.decode (unread.take 4)), ?_, ?_⟩
      · rw [reader, Reader.sized_of_le hCount, Reader.raw_of_le hBlock, List.drop_drop]
        rfl
      · rw [Returns, need, List.drop_take, Nat.add_sub_cancel_left]

/-- With too few bytes a call fails, at the cost of a length at most. -/
theorem reader_of_short (call : Read) {unread : Bytes} (h : unread.length < call.need unread) :
    call.reader unread = (.error .truncated, unread.drop (call.lost unread)) := by
  cases call with
  | scalar s => exact Reader.scalar_of_lt h
  | raw n => exact Reader.raw_of_lt h
  | sized =>
      rw [reader, lost]
      split
      · rename_i hCount
        have hBlock : (unread.drop 4).length < LittleEndian.decode (unread.take 4) := by
          rw [List.length_drop]
          rw [need] at h
          omega
        rw [Reader.sized_of_le hCount, Reader.raw_of_lt hBlock]
      · rename_i hCount
        exact Reader.sized_of_lt (Nat.lt_of_not_le hCount)

theorem lost_le (call : Read) (unread : Bytes) : call.lost unread ≤ unread.length := by
  cases call with
  | scalar s => exact Nat.zero_le _
  | raw n => exact Nat.zero_le _
  | sized =>
      rw [lost]
      split
      · assumption
      · exact Nat.zero_le _

/-- Every call on a cursor is a call on the unread bytes. -/
theorem run_mirrors (call : Read) (hAsk : call.Askable) {c : Cursor} (h : c.Within) :
    Cursor.Mirrors (call.run c) c (call.reader c.unread) := by
  cases call with
  | scalar s => exact h.scalar_mirrors s
  | raw n =>
      have hMirrors := h.raw_mirrors (UInt64.ofNat n)
      rwa [UInt64.toNat_ofNat_of_lt' hAsk] at hMirrors
  | sized => exact h.sized_mirrors

namespace Step

/-- The bytes between the two positions of a step. -/
def consumed (step : Step) : Bytes :=
  (step.before.buffer.take step.after.position.toNat).drop step.before.position.toNat

/-- What a call may do to the reader of a buffer. -/
structure Orderly (buffer : Bytes) (step : Step) : Prop where
  buffer_eq : step.after.buffer = buffer
  position_le : step.before.position ≤ step.after.position
  position_le_length : step.after.position.toNat ≤ buffer.length
  toNat_remaining : step.after.remaining.toNat = buffer.length - step.after.position.toNat
  atEnd_iff : step.after.atEnd = true ↔ step.after.remaining = 0
  of_enough : step.call.need step.before.unread ≤ step.before.unread.length →
    ∃ value, step.result = .ok value ∧
      step.call.Returns value (step.before.unread.take (step.call.need step.before.unread)) ∧
      step.after.position.toNat =
        step.before.position.toNat + step.call.need step.before.unread
  of_short : step.before.unread.length < step.call.need step.before.unread →
    step.result = .error .truncated ∧
      step.after.position.toNat =
        step.before.position.toNat + step.call.lost step.before.unread

end Step

/-- A step from within the buffer leads on within it, does what it may do, and accounts for the
bytes that were unread. -/
theorem run_orderly (call : Read) (hAsk : call.Askable) {c : Cursor} (h : c.Within) :
    ∃ result next, call.run c = some (result, next) ∧ next.Within ∧
      Step.Orderly c.buffer ⟨call, c, result, next⟩ ∧
      Step.consumed ⟨call, c, result, next⟩ ++ next.unread = c.unread := by
  obtain ⟨n, hn, hRun, hRest⟩ := run_mirrors call hAsk h
  have hNext := h.advance hn
  have hPosition := h.toNat_advance hn
  -- Equal rests of one length have passed equally many bytes.
  have hPassed (k : Nat) (hk : k ≤ c.unread.length)
      (hDrop : (call.reader c.unread).2 = c.unread.drop k) : n.toNat = k := by
    have hLengths := congrArg List.length (hRest.symm.trans hDrop)
    rw [List.length_drop, List.length_drop] at hLengths
    omega
  refine ⟨_, _, hRun, hNext, ?_, ?_⟩
  · refine ⟨rfl, ?_, hNext.position_le, ?_, hNext.atEnd_iff, ?_, ?_⟩
    · exact UInt64.le_iff_toNat_le.mpr (hPosition ▸ Nat.le_add_right _ _)
    · rw [hNext.toNat_remaining, Cursor.length_unread, Cursor.buffer_advance]
    · intro hEnough
      obtain ⟨value, hReader, hValue⟩ := reader_of_enough call hEnough
      refine ⟨value, by rw [hReader], hValue, ?_⟩
      rw [hPosition, hPassed _ hEnough (by rw [hReader])]
    · intro hShort
      have hReader := reader_of_short call hShort
      refine ⟨by rw [hReader], ?_⟩
      rw [hPosition, hPassed _ (lost_le call c.unread) (by rw [hReader])]
  · rw [Step.consumed, hPosition, h.unread_advance hn, List.drop_take, Nat.add_sub_cancel_left]
    exact List.take_append_drop _ _

theorem steps_cons {call : Read} {calls : List Read} {c next : Cursor}
    {result : Except ReadError call.Result} (h : call.run c = some (result, next)) :
    steps (call :: calls) c = ⟨call, c, result, next⟩ :: steps calls next := by
  simp only [steps, h]

/-- Each call starts where the one before it stopped, and all of them come to an end. -/
theorem steps_orderly {calls : List Read} (hAsk : ∀ call ∈ calls, call.Askable) {c : Cursor}
    (h : c.Within) :
    (steps calls c).map Step.call = calls ∧
    (∀ step ∈ steps calls c, step.Orderly c.buffer) ∧
    ∃ last : Cursor,
      (steps calls c).map Step.before ++ [last] = c :: (steps calls c).map Step.after ∧
      (steps calls c).flatMap Step.consumed ++ last.unread = c.unread := by
  induction calls generalizing c with
  | nil => exact ⟨rfl, fun step hStep => absurd hStep List.not_mem_nil, c, rfl, rfl⟩
  | cons call calls ih =>
      obtain ⟨result, next, hRun, hNext, hOrderly, hBytes⟩ :=
        run_orderly call (hAsk call List.mem_cons_self) h
      obtain ⟨hCalls, hSteps, last, hChain, hRest⟩ :=
        ih (fun other hOther => hAsk other (List.mem_cons_of_mem _ hOther)) hNext
      have hBuffer : next.buffer = c.buffer := hOrderly.buffer_eq
      rw [steps_cons hRun]
      refine ⟨?_, ?_, last, ?_, ?_⟩
      · rw [List.map_cons, hCalls]
      · exact List.forall_mem_cons.mpr ⟨hOrderly, hBuffer ▸ hSteps⟩
      · rw [List.map_cons, List.map_cons, List.cons_append, hChain]
      · rw [List.flatMap_cons, List.append_assoc, hRest, hBytes]

/-- Whatever calls are made on a buffer, each of them comes to an end, a later one starts where the
one before it stopped, and what they consume and what remains are together the buffer. -/
theorem buffer_accounted_for {buffer : Bytes} (hBuffer : buffer.length < 2 ^ 64)
    {calls : List Read} (hAsk : ∀ call ∈ calls, call.Askable) :
    (steps calls (.start buffer)).map Step.call = calls ∧
    (∀ step ∈ steps calls (.start buffer), step.Orderly buffer) ∧
    ∃ last : Cursor,
      (steps calls (.start buffer)).map Step.before ++ [last] =
        .start buffer :: (steps calls (.start buffer)).map Step.after ∧
      (steps calls (.start buffer)).flatMap Step.consumed ++ last.unread = buffer :=
  steps_orderly hAsk (.start hBuffer)

/-- A byte, a byte string of which three bytes are missing, and the two that are there. -/
def cutShort : Bytes := [0xff, 5, 0, 0, 0, 0x61, 0x62]

/-- The first and the last call fail for want of bytes, and so does the third, which consumes the
length. -/
def cutShortCalls : List Read :=
  [.raw (2 ^ 64 - 1), .scalar .i8, .sized, .scalar .u16, .scalar .u32]

theorem buffer_accounted_for_cutShort :
    (steps cutShortCalls (.start cutShort)).map (fun step => step.after.position.toNat) =
      [0, 1, 5, 7, 7] ∧
    ∃ last : Cursor,
      (steps cutShortCalls (.start cutShort)).map Step.before ++ [last] =
        .start cutShort :: (steps cutShortCalls (.start cutShort)).map Step.after ∧
      (steps cutShortCalls (.start cutShort)).flatMap Step.consumed ++ last.unread = cutShort := by
  have hBuffer : cutShort.length < 2 ^ 64 := by decide
  have hAsk : ∀ call ∈ cutShortCalls, call.Askable := by decide
  exact ⟨by decide +kernel, (buffer_accounted_for hBuffer hAsk).2.2⟩

end Read

end Dataflow.Wire
