import Dataflow.Wire.Codec
import Dataflow.Proofs.Wire.Grammar
import Dataflow.Proofs.Wire.Scalar

/-! The wire forms of values. `decode_reads` says that the decoder of a type accepts the encodings
of its values and nothing else, as long as all lengths fit into their four bytes. -/
namespace Dataflow.Wire

/-- Higher digits than the width has room for are lost. -/
theorem LittleEndian.decode_encode (width n : Nat) :
    decode (encode width n) = n % 256 ^ width := by
  induction width generalizing n with
  | zero => exact (Nat.mod_one n).symm
  | succ width ih =>
      calc decode (encode (width + 1) n)
          = n % 256 + 256 * (n / 256 % 256 ^ width) := by simp [encode, decode, ih]
        _ = n % 256 ^ (width + 1) := by rw [Nat.pow_succ', Nat.mod_mul]

/-- A block stands for a number that its width has room for. -/
theorem LittleEndian.decode_lt (bytes : Bytes) : decode bytes < 256 ^ bytes.length := by
  induction bytes with
  | nil => exact Nat.one_pos
  | cons low rest ih =>
      have hLow := low.toNat_lt
      rw [decode, List.length_cons, Nat.pow_succ']
      omega

/-- The number in front of a text or sequence is right below `2 ^ 32`. -/
theorem decode_countBytes {n : Nat} (h : n < 2 ^ 32) : LittleEndian.decode (countBytes n) = n := by
  rw [countBytes, LittleEndian.decode_encode]
  exact Nat.mod_eq_of_lt h

theorem countBytes_decode {bytes : Bytes} (h : bytes.length = 4) :
    countBytes (LittleEndian.decode bytes) = bytes := by
  rw [countBytes, ← h, LittleEndian.encode_decode]

/-- A scalar is read back from its block. -/
theorem scalar_decode_scalarBytes (s : Scalar) (value : s.Val) :
    s.ofBits (LittleEndian.decode (scalarBytes s value)) = value := by
  rw [scalarBytes, LittleEndian.decode_encode, Nat.mod_eq_of_lt (s.bits_lt value)]
  exact s.ofBits_bits value

/-- Every block of the width is that of a scalar. -/
theorem scalarBytes_decode (s : Scalar) {bytes : Bytes} (h : bytes.length = s.width) :
    scalarBytes s (s.ofBits (LittleEndian.decode bytes)) = bytes := by
  have hBits : LittleEndian.decode bytes < 256 ^ s.width := h ▸ LittleEndian.decode_lt bytes
  rw [scalarBytes, s.bits_ofBits hBits, ← h, LittleEndian.encode_decode]

/-- Whether the length of every text and sequence inside a value can be written in four bytes. -/
def Ty.Fits : (t : Ty) → t.Val → Prop
  | .scalar _, _ => True
  | .bool, _ => True
  | .str, v => v.length < 2 ^ 32
  | .pair first second, v => first.Fits v.1 ∧ second.Fits v.2
  | .vec item, v => v.length < 2 ^ 32 ∧ ∀ x ∈ v, item.Fits x

/-- Items are kept in the order in which they were read, the last of them first. -/
theorem Filling.items_foldl_push {α : Type} (out : Filling α) (later : List α) :
    (later.foldl push out).items = later.reverse ++ out.items := by
  induction later generalizing out with
  | nil => rfl
  | cons value later ih =>
      rw [List.foldl_cons, ih, push, List.reverse_cons, List.append_assoc, List.singleton_append]

namespace Reader

/-- A scalar is read from its block and from no other. -/
theorem scalar_reads (s : Scalar) :
    (scalar s).Reads (fun v block => block = scalarBytes s v) False := by
  apply ((Reads.raw s.width).andThen fun a _ _ => Reads.succeed _).congr
  · intro v block
    constructor
    · intro hWritten
      obtain ⟨a, left, right, ⟨hLength, rfl⟩, ⟨rfl, rfl⟩, rfl⟩ := hWritten
      rw [scalarBytes_decode s hLength, List.append_nil]
    · intro hBlock
      subst hBlock
      refine ⟨_, _, [], ⟨length_scalarBytes s v, rfl⟩, ⟨?_, rfl⟩, (List.append_nil _).symm⟩
      exact (scalar_decode_scalarBytes s v).symm
  · simp

theorem count_reads : count.Reads (fun n block => n < 2 ^ 32 ∧ block = countBytes n) False := by
  apply ((Reads.raw 4).andThen fun a _ _ => Reads.succeed _).congr
  · intro n block
    constructor
    · intro hWritten
      obtain ⟨a, left, right, ⟨hLength, rfl⟩, ⟨rfl, rfl⟩, rfl⟩ := hWritten
      have hBound := LittleEndian.decode_lt left
      rw [hLength] at hBound
      exact ⟨hBound, by rw [countBytes_decode hLength, List.append_nil]⟩
    · intro hWritten
      obtain ⟨hBound, rfl⟩ := hWritten
      refine ⟨_, _, [], ⟨LittleEndian.length_encode 4 n, rfl⟩, ⟨?_, rfl⟩, (List.append_nil _).symm⟩
      exact (decode_countBytes hBound).symm
  · simp

/-- A text is read from its length and its bytes. -/
theorem sized_reads :
    sized.Reads (fun v block => v.length < 2 ^ 32 ∧ block = sizedBytes v) False := by
  apply (count_reads.andThen fun n _ _ => Reads.raw n).congr
  · intro v block
    constructor
    · intro hWritten
      obtain ⟨n, left, right, ⟨hBound, rfl⟩, ⟨rfl, rfl⟩, rfl⟩ := hWritten
      exact ⟨hBound, rfl⟩
    · intro hWritten
      obtain ⟨hBound, rfl⟩ := hWritten
      exact ⟨v.length, _, v, ⟨hBound, rfl⟩, ⟨rfl, rfl⟩, rfl⟩
  · simp

theorem bool_nil : bool [] = (.error .truncated, []) := rfl

theorem bool_cons (b : UInt8) (rest : Bytes) :
    bool (b :: rest) = if b > 1 then (.error .badBool, rest) else (.ok (b == 1), rest) := by
  have hBlock : [b] = scalarBytes .u8 b := by
    simp [scalarBytes, LittleEndian.encode, Scalar.bits, Scalar.width]
  have hByte : scalar .u8 (b :: rest) = (.ok b, rest) :=
    (scalar_reads .u8).accepts_append hBlock rest
  rw [bool, andThen_of_ok hByte]
  split <;> rfl

/-- A truth value is one byte, and other bytes than 0 and 1 are refused. -/
theorem bool_reads : bool.Reads (fun v block => block = boolByte v) True where
  inhabited := ⟨false, _, rfl⟩
  accepts buffer v rest := by
    constructor
    · intro h
      cases buffer with
      | nil => simp [bool_nil] at h
      | cons b bytes =>
          rw [bool_cons] at h
          split at h
          · simp at h
          · rename_i hSmall
            simp only [Prod.mk.injEq, Except.ok.injEq] at h
            obtain ⟨rfl, rfl⟩ := h
            have hByte : b = 0 ∨ b = 1 := by grind
            rcases hByte with rfl | rfl <;> exact ⟨_, rfl, rfl⟩
    · intro hWritten
      obtain ⟨block, rfl, rfl⟩ := hWritten
      cases v <;> rfl
  truncated buffer := by
    cases buffer with
    | nil => simp [bool_nil, boolByte]
    | cons b bytes =>
        rw [bool_cons]
        constructor
        · intro h
          split at h <;> simp at h
        · intro hWritten
          obtain ⟨v, missing, hMissing, hBlock⟩ := hWritten
          simp only [boolByte, List.cons_append, List.cons.injEq, List.append_eq_nil_iff] at hBlock
          exact absurd hBlock.2.2 hMissing
  refuses _ _ := trivial
  not_trailing buffer := by
    cases buffer with
    | nil => simp [bool_nil]
    | cons b bytes =>
        rw [bool_cons]
        split <;> simp

/-- The items of a sequence follow one another, behind those that were read before. -/
theorem fill_reads {α : Type} {item : Reader α} {Fits : α → Prop} {write : α → Bytes}
    {CanRefuse : Prop} (h : item.Reads (fun v block => Fits v ∧ block = write v) CanRefuse)
    (n : Nat) (out : Filling α) :
    (fill item n out).Reads
      (fun filled block => ∃ later : List α, filled = later.foldl Filling.push out ∧
        later.length = n ∧ (∀ x ∈ later, Fits x) ∧ block = later.flatMap write) CanRefuse := by
  induction n generalizing out with
  | zero =>
      apply (Reads.succeed out).congr
      · intro filled block
        constructor
        · intro hWritten
          obtain ⟨rfl, rfl⟩ := hWritten
          exact ⟨[], rfl, rfl, by simp, rfl⟩
        · intro hWritten
          obtain ⟨later, rfl, hLength, -, rfl⟩ := hWritten
          rw [List.length_eq_zero_iff.mp hLength]
          exact ⟨rfl, rfl⟩
      · exact False.elim
  | succ n ih =>
      apply (h.andThen fun a _ _ => ih (out.push a)).congr
      · intro filled block
        constructor
        · intro hWritten
          obtain ⟨a, left, right, ⟨hFits, rfl⟩, ⟨later, rfl, rfl, hLater, rfl⟩, rfl⟩ := hWritten
          exact ⟨a :: later, rfl, rfl, List.forall_mem_cons.mpr ⟨hFits, hLater⟩, rfl⟩
        · intro hWritten
          obtain ⟨later, rfl, hLength, hLater, rfl⟩ := hWritten
          cases later with
          | nil => cases hLength
          | cons a later =>
              obtain ⟨hFits, hRest⟩ := List.forall_mem_cons.mp hLater
              refine ⟨a, write a, later.flatMap write, ⟨hFits, rfl⟩, ?_, rfl⟩
              exact ⟨later, rfl, Nat.succ.inj hLength, hRest, rfl⟩
      · simp

/-- How much room is made for the items does not show in what is read. -/
theorem items_reads {α : Type} {item : Reader α} {Fits : α → Prop} {write : α → Bytes}
    {CanRefuse : Prop} (h : item.Reads (fun v block => Fits v ∧ block = write v) CanRefuse)
    (n : Nat) :
    (items item n).Reads
      (fun v block => v.length = n ∧ (∀ x ∈ v, Fits x) ∧ block = v.flatMap write) CanRefuse := by
  refine Reads.ofAhead (fun left => (fill item n (.reserve (min n left))).andThen
    fun out => succeed out.items.reverse) List.length fun left => ?_
  apply ((fill_reads h n _).andThen fun out _ _ => Reads.succeed out.items.reverse).congr
  · intro v block
    constructor
    · intro hWritten
      obtain ⟨out, written, _, ⟨later, rfl, hLength, hLater, rfl⟩, ⟨rfl, rfl⟩, rfl⟩ := hWritten
      rw [Filling.items_foldl_push, Filling.reserve, List.append_nil, List.reverse_reverse,
        List.append_nil]
      exact ⟨hLength, hLater, rfl⟩
    · intro hWritten
      obtain ⟨hLength, hItems, rfl⟩ := hWritten
      refine ⟨_, _, [], ⟨v, rfl, hLength, hItems, rfl⟩, ⟨?_, rfl⟩, (List.append_nil _).symm⟩
      rw [Filling.items_foldl_push, Filling.reserve, List.append_nil, List.reverse_reverse]
  · simp

end Reader

/-- The decoder of a type accepts the encodings of the values whose lengths fit, and it refuses a
truth value only where the type has one. -/
theorem decode_reads (t : Ty) :
    (decode t).Reads (fun v block => t.Fits v ∧ block = encode t v) (t.hasBool = true) := by
  induction t with
  | scalar s =>
      apply (Reader.scalar_reads s).congr
      · intro v block
        simp only [Ty.Fits, encode, true_and]
      · exact False.elim
  | bool =>
      apply Reader.bool_reads.congr
      · intro v block
        simp only [Ty.Fits, encode, true_and]
      · exact fun _ => rfl
  | str =>
      apply Reader.sized_reads.congr
      · intro v block
        simp only [Ty.Fits, encode]
      · exact False.elim
  | pair first second ihFirst ihSecond =>
      apply (ihFirst.andThen fun a _ _ => ihSecond.andThen fun b _ _ =>
        Reader.Reads.succeed (a, b)).congr
      · intro value block
        obtain ⟨v, w⟩ := value
        constructor
        · intro hWritten
          obtain ⟨a, left, right, ⟨hFirst, rfl⟩, ⟨b, middle, last, ⟨hSecond, rfl⟩, ⟨hPair, rfl⟩,
            rfl⟩, rfl⟩ := hWritten
          obtain ⟨rfl, rfl⟩ := Prod.mk.inj hPair
          exact ⟨⟨hFirst, hSecond⟩, by rw [List.append_nil, encode]⟩
        · intro hWritten
          obtain ⟨⟨hFirst, hSecond⟩, rfl⟩ := hWritten
          refine ⟨v, _, _, ⟨hFirst, rfl⟩, ⟨w, _, [], ⟨hSecond, rfl⟩, ⟨rfl, rfl⟩, rfl⟩, ?_⟩
          rw [List.append_nil, encode]
      · simp [Ty.hasBool]
  | vec item ih =>
      apply (Reader.count_reads.andThen fun n _ _ => Reader.items_reads ih n).congr
      · intro v block
        constructor
        · intro hWritten
          obtain ⟨n, left, right, ⟨hBound, rfl⟩, ⟨rfl, hItems, rfl⟩, rfl⟩ := hWritten
          exact ⟨⟨hBound, hItems⟩, rfl⟩
        · intro hWritten
          obtain ⟨⟨hBound, hItems⟩, rfl⟩ := hWritten
          exact ⟨v.length, _, _, ⟨hBound, rfl⟩, ⟨rfl, hItems, rfl⟩, rfl⟩
      · simp [Ty.hasBool]

end Dataflow.Wire
