import Dataflow.Proofs.Wire.Codec

/-! Cursors against unread bytes. As long as the position lies within the buffer, the subtraction
that finds the remaining bytes does not wrap, every look at the buffer finds a byte, and a call does
to the unread bytes what its reader does. -/
namespace Dataflow.Wire

namespace Cursor

/-- The buffer is small enough for a word to count its bytes, and the position is not behind it. -/
structure Within (c : Cursor) : Prop where
  size_lt : c.buffer.length < 2 ^ 64
  position_le : c.position.toNat ≤ c.buffer.length

def unread (c : Cursor) : Bytes := c.buffer.drop c.position.toNat

theorem unread_start (buffer : Bytes) : (start buffer).unread = buffer := rfl

theorem length_unread (c : Cursor) : c.unread.length = c.buffer.length - c.position.toNat :=
  List.length_drop

@[simp] theorem advance_zero (c : Cursor) : c.advance 0 = c := by
  rw [advance, UInt64.add_zero]

theorem advance_advance (c : Cursor) (m n : UInt64) :
    (c.advance m).advance n = c.advance (m + n) := by
  simp only [advance, UInt64.add_assoc]

@[simp] theorem buffer_advance (c : Cursor) (n : UInt64) : (c.advance n).buffer = c.buffer := rfl

namespace Within

variable {c : Cursor}

/-- A new cursor stands at the beginning of its buffer. -/
theorem start {buffer : Bytes} (h : buffer.length < 2 ^ 64) : (start buffer).Within where
  size_lt := h
  position_le := Nat.zero_le _

theorem toNat_size (h : c.Within) : c.size.toNat = c.buffer.length :=
  UInt64.toNat_ofNat_of_lt' h.size_lt

/-- What is left is found without wrapping. -/
theorem toNat_remaining (h : c.Within) : c.remaining.toNat = c.unread.length := by
  have hLe : c.position ≤ c.size := UInt64.le_iff_toNat_le.mpr (h.toNat_size ▸ h.position_le)
  rw [remaining, UInt64.toNat_sub_of_le _ _ hLe, h.toNat_size, length_unread]

/-- The bound check compares what is asked for with what is unread. -/
theorem remaining_lt_iff (h : c.Within) (n : UInt64) :
    n > c.remaining ↔ c.unread.length < n.toNat := by
  rw [gt_iff_lt, UInt64.lt_iff_toNat_lt, h.toNat_remaining]

theorem atEnd_iff (h : c.Within) : c.atEnd = true ↔ c.remaining = 0 := by
  have hLe := h.position_le
  rw [atEnd, decide_eq_true_iff, UInt64.le_iff_toNat_le, h.toNat_size, ← UInt64.toNat_inj,
    h.toNat_remaining, length_unread, UInt64.toNat_zero]
  omega

section Advance

variable {n : UInt64}

/-- A position that stays within the buffer does not wrap. -/
theorem toNat_advance (h : c.Within) (hn : n.toNat ≤ c.unread.length) :
    (c.advance n).position.toNat = c.position.toNat + n.toNat := by
  have hSize := h.size_lt
  have hLe := h.position_le
  rw [length_unread] at hn
  rw [advance, UInt64.toNat_add]
  omega

theorem advance (h : c.Within) (hn : n.toNat ≤ c.unread.length) : (c.advance n).Within where
  size_lt := h.size_lt
  position_le := by
    have hLe := h.position_le
    rw [h.toNat_advance hn, buffer_advance]
    rw [length_unread] at hn
    omega

/-- Advancing consumes bytes from the front. -/
theorem unread_advance (h : c.Within) (hn : n.toNat ≤ c.unread.length) :
    (c.advance n).unread = c.unread.drop n.toNat := by
  rw [unread, h.toNat_advance hn, buffer_advance, unread, List.drop_drop]

theorem block?_eq (h : c.Within) (hn : n.toNat ≤ c.unread.length) :
    c.block? n = some (c.unread.take n.toNat) := by
  have hLast : (c.position + n).toNat = c.position.toNat + n.toNat := h.toNat_advance hn
  have hLe : (c.position + n).toNat ≤ c.buffer.length := (h.advance hn).position_le
  have hInside : c.position ≤ c.position + n ∧ c.position + n ≤ c.size := by
    rw [UInt64.le_iff_toNat_le, UInt64.le_iff_toNat_le, h.toNat_size]
    omega
  rw [block?, if_pos hInside, hLast, unread, List.take_drop]

end Advance

theorem byte?_eq {b : UInt8} {rest : Bytes} (hUnread : c.unread = b :: rest) :
    c.byte? = some b := by
  rw [byte?, ← Nat.add_zero c.position.toNat, ← List.getElem?_drop, ← unread, hUnread]
  rfl

/-- A byte that is put above the bytes already in place does not touch them. -/
theorem toNat_or_shift {word : UInt64} {i : Nat} (hi : i < 8) (hWord : word.toNat < 256 ^ i)
    (b : UInt8) : (word ||| (b.toUInt64 <<< UInt64.ofNat (8 * i))).toNat =
      word.toNat + 256 ^ i * b.toNat := by
  have hPow : 256 ^ i = 2 ^ (8 * i) := by rw [Nat.pow_mul]
  have hPlace : 2 ^ (8 * i) * 2 ^ 8 ≤ 2 ^ 64 := by
    rw [← Nat.pow_add]
    exact Nat.pow_le_pow_right (by decide) (by omega)
  have hByte : b.toNat < 2 ^ 8 := b.toNat_lt
  have hShifted : b.toNat * 2 ^ (8 * i) < 2 ^ 64 := by
    calc b.toNat * 2 ^ (8 * i) < 2 ^ 8 * 2 ^ (8 * i) :=
          Nat.mul_lt_mul_of_pos_right hByte (Nat.two_pow_pos _)
      _ ≤ 2 ^ 64 := by rwa [Nat.mul_comm]
  have hAmount : (UInt64.ofNat (8 * i)).toNat % 64 = 8 * i := by
    rw [UInt64.toNat_ofNat']
    omega
  rw [hPow] at hWord ⊢
  rw [UInt64.toNat_or, UInt64.toNat_shiftLeft, hAmount, UInt8.toNat_toUInt64,
    Nat.shiftLeft_eq, Nat.mod_eq_of_lt hShifted, Nat.or_comm, ← Nat.shiftLeft_eq,
    ← Nat.shiftLeft_add_eq_or_of_lt hWord, Nat.shiftLeft_eq]
  rw [Nat.add_comm, Nat.mul_comm]

theorem gather_cons {b : UInt8} {rest : Bytes} (hUnread : c.unread = b :: rest) (todo i : Nat)
    (word : UInt64) : gather (todo + 1) i word c =
      gather todo (i + 1) (word ||| (b.toUInt64 <<< UInt64.ofNat (8 * i))) (c.advance 1) := by
  simp only [gather, byte?_eq hUnread]

/-- The bytes gathered spell what they add to the word above its lower `i` bytes. -/
theorem gather_eq (h : c.Within) {todo i : Nat} (hTodo : todo ≤ c.unread.length)
    (hWidth : i + todo ≤ 8) {word : UInt64} (hWord : word.toNat < 256 ^ i) :
    gather todo i word c = some
      (UInt64.ofNat (word.toNat + 256 ^ i * LittleEndian.decode (c.unread.take todo)),
        c.advance (UInt64.ofNat todo)) := by
  induction todo generalizing i word c with
  | zero => simp [gather, LittleEndian.decode]
  | succ todo ih =>
      cases hUnread : c.unread with
      | nil => simp [hUnread] at hTodo
      | cons b rest =>
          have hOne : (1 : UInt64).toNat ≤ c.unread.length := by
            rw [hUnread]
            exact Nat.succ_le_succ (Nat.zero_le _)
          have hRest : (c.advance 1).unread = rest := by
            rw [h.unread_advance hOne, hUnread]
            rfl
          have hEnough : todo ≤ (c.advance 1).unread.length := by
            rw [hUnread, List.length_cons] at hTodo
            rw [hRest]
            omega
          have hPlaced := toNat_or_shift (by omega) hWord b
          have hNext : word.toNat + 256 ^ i * b.toNat < 256 ^ (i + 1) := by
            calc word.toNat + 256 ^ i * b.toNat < 256 ^ i * 1 + 256 ^ i * b.toNat := by omega
              _ = 256 ^ i * (1 + b.toNat) := (Nat.mul_add _ _ _).symm
              _ ≤ 256 ^ i * 256 := Nat.mul_le_mul_left _ (Nat.one_add b.toNat ▸ b.toNat_lt)
          have hSpelled : word.toNat + 256 ^ i * b.toNat +
              256 ^ (i + 1) * LittleEndian.decode (rest.take todo) =
              word.toNat + 256 ^ i * LittleEndian.decode ((b :: rest).take (todo + 1)) := by
            rw [List.take_succ_cons, LittleEndian.decode, Nat.mul_add, Nat.pow_succ, Nat.mul_assoc,
              Nat.add_assoc]
          have hMoved : (c.advance 1).advance (UInt64.ofNat todo) =
              c.advance (UInt64.ofNat (todo + 1)) := by
            rw [advance_advance, UInt64.ofNat_add, UInt64.add_comm]
            rfl
          rw [gather_cons hUnread, ih (h.advance hOne) hEnough (by omega) (hPlaced ▸ hNext), hPlaced,
            hRest, hSpelled, hMoved]

theorem toNat_width {width : Nat} (h : width ≤ 8) : (UInt64.ofNat width).toNat = width :=
  UInt64.toNat_ofNat_of_lt' (Nat.lt_of_le_of_lt h (by decide))

/-- A number of fixed width, as long as a word holds it. -/
theorem word_of_le (h : c.Within) {width : Nat} (hWidth : width ≤ 8)
    (hEnough : width ≤ c.unread.length) :
    c.word width = some (.ok (UInt64.ofNat (LittleEndian.decode (c.unread.take width))),
      c.advance (UInt64.ofNat width)) := by
  have hChecked : ¬ UInt64.ofNat width > c.remaining := by
    rw [h.remaining_lt_iff, toNat_width hWidth]
    omega
  rw [word, if_neg hChecked, h.gather_eq hEnough (by omega) (by decide)]
  simp

theorem word_of_lt (h : c.Within) {width : Nat} (hWidth : width ≤ 8)
    (hShort : c.unread.length < width) : c.word width = some (.error .truncated, c) := by
  have hChecked : UInt64.ofNat width > c.remaining := by
    rw [h.remaining_lt_iff, toNat_width hWidth]
    exact hShort
  rw [word, if_pos hChecked]

end Within

end Cursor

namespace Reader

theorem scalar_of_le {s : Scalar} {bytes : Bytes} (h : s.width ≤ bytes.length) :
    scalar s bytes =
      (.ok (s.ofBits (LittleEndian.decode (bytes.take s.width))), bytes.drop s.width) := by
  rw [scalar, andThen_of_ok (raw_of_le h), succeed]

theorem scalar_of_lt {s : Scalar} {bytes : Bytes} (h : bytes.length < s.width) :
    scalar s bytes = (.error .truncated, bytes) := by
  rw [scalar, andThen_of_error (raw_of_lt h)]

theorem sized_of_le {bytes : Bytes} (h : 4 ≤ bytes.length) :
    sized bytes = raw (LittleEndian.decode (bytes.take 4)) (bytes.drop 4) := by
  have hCount : count bytes = (.ok (LittleEndian.decode (bytes.take 4)), bytes.drop 4) := by
    rw [count, andThen_of_ok (raw_of_le h), succeed]
  rw [sized, andThen_of_ok hCount]

theorem sized_of_lt {bytes : Bytes} (h : bytes.length < 4) :
    sized bytes = (.error .truncated, bytes) := by
  have hCount : count bytes = (.error .truncated, bytes) := by
    rw [count, andThen_of_error (raw_of_lt h)]
  rw [sized, andThen_of_error hCount]

end Reader

namespace Cursor

variable {α : Type} {c : Cursor}

/-- What a call on a cursor makes of its reader: the same result, and the cursor passes just the
bytes that the reader consumes. In particular the call has an outcome. -/
def Mirrors (outcome : Option (Except ReadError α × Cursor)) (c : Cursor)
    (read : Except ReadError α × Bytes) : Prop :=
  ∃ n : UInt64, n.toNat ≤ c.unread.length ∧ outcome = some (read.1, c.advance n) ∧
    read.2 = c.unread.drop n.toNat

theorem Mirrors.stay (result : Except ReadError α) :
    Mirrors (some (result, c)) c (result, c.unread) :=
  ⟨0, Nat.zero_le _, by rw [advance_zero], rfl⟩

namespace Within

/-- A call that goes on behind the next bytes passes these as well. -/
theorem mirrors_advance (h : c.Within) {n : UInt64} (hn : n.toNat ≤ c.unread.length)
    {outcome : Option (Except ReadError α × Cursor)} {read : Except ReadError α × Bytes}
    (hNext : Mirrors outcome (c.advance n) read) : Mirrors outcome c read := by
  obtain ⟨m, hm, rfl, hRest⟩ := hNext
  have hSize := h.size_lt
  rw [h.unread_advance hn, List.length_drop] at hm
  have hSum : (n + m).toNat = n.toNat + m.toNat := by
    rw [UInt64.toNat_add]
    rw [length_unread] at hn hm
    omega
  refine ⟨n + m, by omega, by rw [advance_advance], ?_⟩
  rw [hRest, h.unread_advance hn, List.drop_drop, hSum]

/-- The loop that gathers a scalar reads what the reader of scalars reads. -/
theorem scalar_mirrors (h : c.Within) (s : Scalar) :
    Mirrors (c.scalar s) c (Reader.scalar s c.unread) := by
  have hWidth : s.width ≤ 8 := by cases s <;> decide
  by_cases hEnough : s.width ≤ c.unread.length
  · have hSmall := toNat_width hWidth
    have hWord : LittleEndian.decode (c.unread.take s.width) < UInt64.size := by
      calc LittleEndian.decode (c.unread.take s.width)
          < 256 ^ (c.unread.take s.width).length := LittleEndian.decode_lt _
        _ ≤ 256 ^ 8 := Nat.pow_le_pow_right (by decide)
            (Nat.le_trans (List.length_take_le _ _) hWidth)
        _ = UInt64.size := by decide
    have hScalar : c.scalar s = some
        (.ok (s.ofBits (LittleEndian.decode (c.unread.take s.width))),
          c.advance (UInt64.ofNat s.width)) := by
      rw [scalar, h.word_of_le hWidth hEnough, Option.map_some]
      simp only [Except.map, UInt64.toNat_ofNat_of_lt' hWord]
    rw [hScalar, Reader.scalar_of_le hEnough]
    exact ⟨UInt64.ofNat s.width, hSmall.symm ▸ hEnough, rfl, by rw [hSmall]⟩
  · have hShort : c.unread.length < s.width := Nat.lt_of_not_le hEnough
    rw [scalar, h.word_of_lt hWidth hShort, Reader.scalar_of_lt hShort]
    exact Mirrors.stay _

/-- Copying nothing needs no look at the buffer, but such a look would do no harm. -/
theorem raw_eq (h : c.Within) (n : UInt64) :
    c.raw n = if n > c.remaining then some (.error .truncated, c)
      else (c.block? n).map fun block => (.ok block, c.advance n) := by
  rw [raw]
  split
  · rfl
  · split
    · rename_i hZero
      have hNone : n.toNat ≤ c.unread.length := by
        rw [hZero]
        exact Nat.zero_le _
      rw [h.block?_eq hNone, hZero, UInt64.toNat_zero, List.take_zero]
      rfl
    · rfl

/-- Raw bytes are read as the reader of blocks reads them. -/
theorem raw_mirrors (h : c.Within) (n : UInt64) :
    Mirrors (c.raw n) c (Reader.raw n.toNat c.unread) := by
  rw [h.raw_eq]
  by_cases hEnough : n.toNat ≤ c.unread.length
  · have hChecked : ¬ n > c.remaining := by
      rw [h.remaining_lt_iff]
      omega
    rw [if_neg hChecked, h.block?_eq hEnough, Reader.raw_of_le hEnough]
    exact ⟨n, hEnough, rfl, rfl⟩
  · have hShort : c.unread.length < n.toNat := Nat.lt_of_not_le hEnough
    rw [if_pos ((h.remaining_lt_iff n).mpr hShort), Reader.raw_of_lt hShort]
    exact Mirrors.stay _

/-- Texts are read as the reader of texts reads them. -/
theorem sized_mirrors (h : c.Within) : Mirrors c.sized c (Reader.sized c.unread) := by
  by_cases hCount : 4 ≤ c.unread.length
  · have hFour : (UInt64.ofNat 4).toNat ≤ c.unread.length := hCount
    have hBound : LittleEndian.decode (c.unread.take 4) < UInt32.size := by
      have hDigits := LittleEndian.decode_lt (c.unread.take 4)
      rwa [List.length_take_of_le hCount] at hDigits
    have hLength : (UInt64.ofNat (LittleEndian.decode (c.unread.take 4))).toUInt32.toUInt64.toNat =
        LittleEndian.decode (c.unread.take 4) := by
      have hWord := Nat.lt_trans hBound (by decide : UInt32.size < UInt64.size)
      rw [UInt32.toNat_toUInt64, UInt64.toNat_toUInt32, UInt64.toNat_ofNat_of_lt' hWord]
      exact Nat.mod_eq_of_lt hBound
    have hNext := h.advance hFour
    have hRaw := hNext.raw_mirrors
      (UInt64.ofNat (LittleEndian.decode (c.unread.take 4))).toUInt32.toUInt64
    rw [hLength, h.unread_advance hFour, hNext.raw_eq] at hRaw
    rw [Reader.sized_of_le hCount, sized, h.word_of_le (by decide) hCount]
    exact h.mirrors_advance hFour hRaw
  · have hShort : c.unread.length < 4 := Nat.lt_of_not_le hCount
    rw [Reader.sized_of_lt hShort, sized, h.word_of_lt (by decide) hShort]
    exact Mirrors.stay _

end Within

end Cursor

end Dataflow.Wire
