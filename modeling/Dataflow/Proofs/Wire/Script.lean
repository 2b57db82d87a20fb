import Dataflow.Proofs.Wire.Reading
import Mathlib.Algebra.GroupWithZero.Nat
import Mathlib.Data.List.DropRight
import Mathlib.Data.List.Induction

/-! Scripts of writes. At any time a writer holds what was written since the bytes were last taken
away. Buffers that were taken one after the other form a single stream, and the calls that match the
writes read from it what was written, down to the last byte. Where the bytes were taken makes no
difference to the stream. -/
namespace Dataflow.Wire

/-- A word that is shifted and masked gives one of its digits in base 256. -/
theorem toUInt8_shiftRight (word : UInt64) {i : Nat} (hi : i < 8) :
    ((word >>> UInt64.ofNat (8 * i)) &&& 0xff).toUInt8 =
      UInt8.ofNat (word.toNat / 256 ^ i % 256) := by
  have hAmount : (UInt64.ofNat (8 * i)).toNat % 64 = 8 * i := by
    rw [UInt64.toNat_ofNat']
    omega
  have hMasked : ((word >>> UInt64.ofNat (8 * i)) &&& 0xff).toNat =
      word.toNat / 256 ^ i % 256 := by
    calc ((word >>> UInt64.ofNat (8 * i)) &&& 0xff).toNat
        = word.toNat / 2 ^ (8 * i) &&& (2 ^ 8 - 1) := by
          rw [UInt64.toNat_and, UInt64.toNat_shiftRight, hAmount, Nat.shiftRight_eq_div_pow]
          rfl
      _ = word.toNat / 256 ^ i % 256 := by
          rw [Nat.and_two_pow_sub_one_eq_mod, Nat.pow_mul]
  rw [← hMasked]
  rfl

/-- The shifts spread a word into its digits. -/
theorem spread_eq {todo i : Nat} (h : i + todo ≤ 8) (word : UInt64) :
    spread todo i word = LittleEndian.encode todo (word.toNat / 256 ^ i) := by
  induction todo generalizing i with
  | zero => rfl
  | succ todo ih =>
      rw [spread, LittleEndian.encode, toUInt8_shiftRight word (by omega), ih (by omega),
        Nat.pow_succ, Nat.div_div_eq_div_mul]

theorem LittleEndian.encode_mod (width n : Nat) :
    encode width (n % 256 ^ width) = encode width n := by
  induction width generalizing n with
  | zero => rfl
  | succ width ih =>
      have hLow : n % 256 ^ (width + 1) % 256 = n % 256 :=
        Nat.mod_mod_of_dvd n (Nat.pow_succ' ▸ Nat.dvd_mul_right 256 _)
      have hHigh : n % 256 ^ (width + 1) / 256 = n / 256 % 256 ^ width := by
        rw [Nat.pow_succ', Nat.mod_mul_right_div_self]
      rw [encode, encode, hLow, hHigh, ih]

namespace Write

theorem added_scalar (s : Scalar) (value : s.Val) :
    (scalar s value).added = scalarBytes s value := by
  have hWidth : s.width ≤ 8 := by cases s <;> decide
  have hBits : s.bits value < UInt64.size :=
    Nat.lt_of_lt_of_le (s.bits_lt value) (Nat.pow_le_pow_right (by decide) hWidth)
  rw [added, spread_eq (by omega), UInt64.toNat_ofNat_of_lt' hBits, Nat.pow_zero, Nat.div_one,
    scalarBytes]

theorem added_sized (text : Bytes) : (sized text).added = sizedBytes text := by
  have hLength : (UInt64.ofNat text.length).toUInt32.toUInt64.toNat = text.length % 256 ^ 4 := by
    rw [UInt32.toNat_toUInt64, UInt64.toNat_toUInt32, UInt64.toNat_ofNat']
    omega
  rw [added, spread_eq (by decide), hLength, Nat.pow_zero, Nat.div_one, LittleEndian.encode_mod,
    sizedBytes, countBytes]

def amount : Write → Nat
  | scalar s _ => s.width
  | raw block => block.length
  | sized text => 4 + text.length
  | take => 0

/-- A call adds as many bytes as it says. -/
theorem length_added (call : Write) : call.added.length = call.amount := by
  cases call with
  | scalar s value => rw [added_scalar, length_scalarBytes, amount]
  | raw block => rfl
  | sized text => rw [added_sized, length_sizedBytes, amount]
  | take => rfl

def isTake : Write → Bool
  | take => true
  | scalar _ _ | raw _ | sized _ => false

def sinceTake (calls : List Write) : List Write := calls.rtakeWhile fun call => !call.isTake

def pending (calls : List Write) : Bytes := (sinceTake calls).flatMap added

def size (calls : List Write) : Nat := ((sinceTake calls).map amount).sum

def writes (calls : List Write) : List Write := calls.filter fun call => !call.isTake

/-- The writes before the last take. -/
def collected (calls : List Write) : List Write :=
  writes (calls.rdropWhile fun call => !call.isTake)

def stream (calls : List Write) : Bytes := ((runAll calls []).1.filterMap Prod.fst).flatten

theorem length_pending (calls : List Write) : (pending calls).length = size calls := by
  rw [pending, size, List.length_flatMap]
  simp only [length_added]

theorem sinceTake_concat (calls : List Write) (call : Write) :
    sinceTake (calls ++ [call]) = if call.isTake then [] else sinceTake calls ++ [call] := by
  rw [sinceTake, List.rtakeWhile_concat]
  cases call.isTake <;> rfl

/-- What was written has been collected or is still pending. -/
theorem writes_eq (calls : List Write) : writes calls = collected calls ++ sinceTake calls := by
  have hWrites : writes (sinceTake calls) = sinceTake calls :=
    List.filter_eq_self.mpr fun call => List.mem_rtakeWhile_imp
  rw [← hWrites, collected, sinceTake, writes, writes, writes, ← List.filter_append,
    List.rdropWhile_append_rtakeWhile]

theorem collected_concat (calls : List Write) (call : Write) :
    collected (calls ++ [call]) =
      if call.isTake then collected calls ++ sinceTake calls else collected calls := by
  rw [collected, List.rdropWhile_concat, ← writes_eq]
  cases hTake : call.isTake with
  | true =>
      rw [if_neg (by simp), if_pos rfl, writes, List.filter_append]
      simp [hTake, writes]
  | false => rfl

/-- What a call gives away and leaves behind. -/
theorem apply_eq (held : Bytes) (call : Write) :
    call.apply held = if call.isTake then (some held, []) else (none, held ++ call.added) := by
  cases call <;> rfl

theorem runAll_cons (call : Write) (calls : List Write) (held : Bytes) :
    runAll (call :: calls) held =
      (((call.apply held).1, (call.apply held).2.length) :: (runAll calls (call.apply held).2).1,
        (runAll calls (call.apply held).2).2) := rfl

theorem runAll_append (first second : List Write) (held : Bytes) :
    runAll (first ++ second) held =
      ((runAll first held).1 ++ (runAll second (runAll first held).2).1,
        (runAll second (runAll first held).2).2) := by
  induction first generalizing held with
  | nil => rfl
  | cons call first ih => rw [List.cons_append, runAll_cons, ih, runAll_cons, List.cons_append]

theorem length_runAll (calls : List Write) (held : Bytes) :
    (runAll calls held).1.length = calls.length := by
  induction calls generalizing held with
  | nil => rfl
  | cons call calls ih => rw [runAll_cons, List.length_cons, ih, List.length_cons]

/-- A take gives all that is pending, and other calls add to it. -/
theorem apply_pending (calls : List Write) (call : Write) :
    call.apply (pending calls) =
      (if call.isTake then some (pending calls) else none, pending (calls ++ [call])) := by
  rw [apply_eq, pending, pending, sinceTake_concat]
  cases call.isTake with
  | true => rfl
  | false => simp

/-- A writer holds what was written since the last take. -/
theorem runAll_held (calls : List Write) : (runAll calls []).2 = pending calls := by
  induction calls using List.reverseRecOn with
  | nil => rfl
  | append_singleton calls call ih =>
      rw [runAll_append, ih, runAll_cons, apply_pending]
      rfl

theorem runAll_concat (calls : List Write) (call : Write) :
    (runAll (calls ++ [call]) []).1 = (runAll calls []).1 ++
      [(if call.isTake then some (pending calls) else none, size (calls ++ [call]))] := by
  rw [runAll_append, runAll_held, runAll_cons, apply_pending, length_pending]
  rfl

/-- What was taken away is what was written, up to the last take. -/
theorem stream_eq (calls : List Write) : stream calls = (collected calls).flatMap added := by
  induction calls using List.reverseRecOn with
  | nil => rfl
  | append_singleton calls call ih =>
      rw [stream, runAll_concat, List.filterMap_append, List.flatten_append, ← stream, ih,
        collected_concat]
      cases call.isTake with
      | true => simp [pending]
      | false => simp

theorem outcome_at (before : List Write) (call : Write) (after : List Write) :
    (runAll (before ++ call :: after) []).1[before.length]? =
      some (if call.isTake then some (pending before) else none, size (before ++ [call])) := by
  rw [runAll_append, runAll_held, runAll_cons, apply_pending, length_pending,
    List.getElem?_append_right (Nat.le_of_eq (length_runAll before [])), length_runAll,
    Nat.sub_self]
  rfl

/-- The call that reads what a call has written, and the value that it is to give. -/
def readBack? : Write → Option ((call : Read) × call.Result)
  | scalar s value => some ⟨.scalar s, value⟩
  | raw block => some ⟨.raw block.length, block⟩
  | sized text => some ⟨.sized, text⟩
  | take => none

/-- Whether the length of a byte string can be written in four bytes. -/
def Fits : Write → Prop
  | sized text => text.length < 2 ^ 32
  | scalar _ _ | raw _ | take => True

instance : DecidablePred Fits
  | sized text => inferInstanceAs (Decidable (text.length < 2 ^ 32))
  | scalar _ _ | raw _ | take => isTrue trivial

/-- A value that was written is read back. -/
theorem reader_readBack {call : Write} (hFits : call.Fits) {read : Read} {value : read.Result}
    (hRead : call.readBack? = some ⟨read, value⟩) (rest : Bytes) :
    read.reader (call.added ++ rest) = (.ok value, rest) := by
  cases call with
  | scalar s v =>
      cases hRead
      rw [added_scalar]
      exact (Reader.scalar_reads s).accepts_append rfl rest
  | raw block =>
      cases hRead
      exact Reader.raw_append block rest
  | sized text =>
      cases hRead
      rw [added_sized]
      exact Reader.sized_reads.accepts_append ⟨hFits, rfl⟩ rest
  | take => cases hRead

/-- A block that lies in a buffer is not too long to be asked for. -/
theorem askable_readBack {call : Write} {read : Read} {value : read.Result}
    (hRead : call.readBack? = some ⟨read, value⟩) (hLength : call.added.length < 2 ^ 64) :
    read.Askable := by
  cases call with
  | scalar s v =>
      cases hRead
      exact trivial
  | raw block =>
      cases hRead
      exact hLength
  | sized text =>
      cases hRead
      exact trivial
  | take => cases hRead

/-- It is read back by a cursor as well. -/
theorem run_readBack {call : Write} (hFits : call.Fits) {read : Read} {value : read.Result}
    (hRead : call.readBack? = some ⟨read, value⟩) {c : Cursor} (h : c.Within) {rest : Bytes}
    (hUnread : c.unread = call.added ++ rest) :
    ∃ next, read.run c = some (.ok value, next) ∧ next.Within ∧ next.unread = rest := by
  have hLength : call.added.length < 2 ^ 64 := by
    have hSize := h.size_lt
    have hAll := congrArg List.length hUnread
    rw [Cursor.length_unread, List.length_append] at hAll
    omega
  obtain ⟨n, hn, hRun, hRest⟩ := read.run_mirrors (askable_readBack hRead hLength) h
  rw [hUnread, reader_readBack hFits hRead] at hRun hRest
  rw [← hUnread, ← h.unread_advance hn] at hRest
  exact ⟨c.advance n, hRun, h.advance hn, hRest.symm⟩

end Write

namespace Read

def Step.answer (step : Step) : (call : Read) × Except ReadError call.Result :=
  ⟨step.call, step.result⟩

/-- Calls that are made in turn give these values, and leave the cursor where `last` stands. -/
structure Gives (first : Cursor) (values : List ((call : Read) × call.Result)) (last : Cursor) :
    Prop where
  answers : (steps (values.map Sigma.fst) first).map Step.answer =
    values.map fun value => ⟨value.1, .ok value.2⟩
  chain : (steps (values.map Sigma.fst) first).map Step.before ++ [last] =
    first :: (steps (values.map Sigma.fst) first).map Step.after

theorem Gives.nil (c : Cursor) : Gives c [] c := ⟨rfl, rfl⟩

theorem Gives.cons {read : Read} {value : read.Result} {c next last : Cursor}
    {values : List ((call : Read) × call.Result)} (hRun : read.run c = some (.ok value, next))
    (h : Gives next values last) : Gives c (⟨read, value⟩ :: values) last where
  answers := by
    rw [List.map_cons, List.map_cons, steps_cons hRun, List.map_cons, h.answers]
    rfl
  chain := by
    rw [List.map_cons, steps_cons hRun, List.map_cons, List.map_cons, List.cons_append, h.chain]

end Read

namespace Write

/-- The calls that read what a script has written, with the values that they are to give. -/
def readBack (calls : List Write) : List ((call : Read) × call.Result) :=
  calls.filterMap readBack?

/-- The matching calls pass the bytes of a script one write after the other. -/
theorem readBack_gives {calls : List Write} (hFits : ∀ call ∈ calls, call.Fits) {c : Cursor}
    (h : c.Within) {rest : Bytes} (hUnread : c.unread = calls.flatMap added ++ rest) :
    ∃ last, Read.Gives c (readBack calls) last ∧ last.Within ∧ last.unread = rest := by
  induction calls generalizing c with
  | nil => exact ⟨c, .nil c, h, hUnread⟩
  | cons call calls ih =>
      rw [List.forall_mem_cons] at hFits
      rw [List.flatMap_cons, List.append_assoc] at hUnread
      cases hRead : call.readBack? with
      | none =>
          have hTake : call.added = [] := by
            cases call with
            | take => rfl
            | scalar _ _ | raw _ | sized _ => cases hRead
          rw [hTake, List.nil_append] at hUnread
          rw [readBack, List.filterMap_cons_none hRead]
          exact ih hFits.2 h hUnread
      | some value =>
          obtain ⟨next, hRun, hNext, hRest⟩ := run_readBack hFits.1 hRead h hUnread
          obtain ⟨last, hGives, hLast⟩ := ih hFits.2 hNext hRest
          rw [readBack, List.filterMap_cons_some hRead]
          exact ⟨last, .cons hRun hGives, hLast⟩

/-- Writing and taking, and reading back. A take gives away what was written since the last one, and
the size is always the number of bytes written since then. The bytes that are taken away are those
of the writes before the last take, wherever the other takes stand. As long as a word can count
them, the matching calls read from them every value that was written, in order, and stop at the
end. -/
theorem script_read_back (calls : List Write) :
    (runAll calls []).1.length = calls.length ∧
    (∀ before call after, calls = before ++ call :: after →
      (runAll calls []).1[before.length]? =
        some (if call.isTake then some (pending before) else none, size (before ++ [call]))) ∧
    (∀ before, (pending before).length = size before) ∧
    (runAll calls []).2 = pending calls ∧
    writes calls = collected calls ++ sinceTake calls ∧
    stream calls = (collected calls).flatMap added ∧
    ((∀ call ∈ collected calls, call.Fits) → (stream calls).length < 2 ^ 64 →
      ∃ last, Read.Gives (.start (stream calls)) (readBack (collected calls)) last ∧
        last.atEnd = true) := by
  refine ⟨length_runAll calls [], ?_, length_pending, runAll_held calls, writes_eq calls,
    stream_eq calls, ?_⟩
  · rintro before call after rfl
    exact outcome_at before call after
  · intro hFits hLength
    have hUnread :
        (Cursor.start (stream calls)).unread = (collected calls).flatMap added ++ [] := by
      rw [Cursor.unread_start, stream_eq, List.append_nil]
    obtain ⟨last, hGives, hLast, hRest⟩ := readBack_gives hFits (.start hLength) hUnread
    have hEmpty : last.remaining.toNat = 0 := by
      rw [hLast.toNat_remaining, hRest]
      rfl
    exact ⟨last, hGives, hLast.atEnd_iff.mpr (UInt64.toNat_inj.mp hEmpty)⟩

/-- The smallest value of a type, an empty block and a string, taken in two buffers, and a value
that is not taken any more. -/
def twoBuffers : List Write :=
  [.scalar .i64 (-2 ^ 63), .raw [], .take, .take, .sized [0x61, 0xff], .scalar .i16 (-2), .take,
    .scalar .u8 7]

theorem script_read_back_twoBuffers :
    stream twoBuffers = [0, 0, 0, 0, 0, 0, 0, 0x80, 2, 0, 0, 0, 0x61, 0xff, 0xfe, 0xff] ∧
    ∃ last, Read.Gives (.start (stream twoBuffers))
      [⟨.scalar .i64, (-2 ^ 63 : Int64)⟩, ⟨.raw 0, ([] : Bytes)⟩, ⟨.sized, ([0x61, 0xff] : Bytes)⟩,
        ⟨.scalar .i16, (-2 : Int16)⟩] last ∧ last.atEnd = true := by
  have hFits : ∀ call ∈ collected twoBuffers, call.Fits := by decide
  have hLength : (stream twoBuffers).length < 2 ^ 64 := by decide +kernel
  exact ⟨by decide +kernel, (script_read_back twoBuffers).2.2.2.2.2.2 hFits hLength⟩

end Write

end Dataflow.Wire
