import Dataflow.Bytes

/-!
Fixed-width little-endian numbers. `encode_decode` says that every byte string is the encoding of
the number it spells.
-/

namespace Dataflow.Wire.LittleEndian

/-- The `width` low bytes of a number, lowest first. Higher bytes are dropped. -/
def encode : Nat → Nat → Bytes
  | 0, _ => []
  | width + 1, n => UInt8.ofNat (n % 256) :: encode width (n / 256)

/-- The number whose bytes these are, lowest first. -/
def decode : Bytes → Nat
  | [] => 0
  | b :: rest => b.toNat + 256 * decode rest

/-- A block has its width, whatever the number. -/
@[simp] theorem length_encode (width n : Nat) : (encode width n).length = width := by
  induction width generalizing n with
  | zero => rfl
  | succ width ih => simp [encode, ih]

/-- Every block is that of the number it stands for. -/
theorem encode_decode (bytes : Bytes) : encode bytes.length (decode bytes) = bytes := by
  induction bytes with
  | nil => rfl
  | cons low rest ih =>
    have bound := low.toNat_lt
    have head : (low.toNat + 256 * decode rest) % 256 = low.toNat := by omega
    have tail : (low.toNat + 256 * decode rest) / 256 = decode rest := by omega
    simp [encode, decode, head, tail, ih]

end Dataflow.Wire.LittleEndian
