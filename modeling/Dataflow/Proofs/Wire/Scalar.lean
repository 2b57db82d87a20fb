import Dataflow.Wire.Ty
import Mathlib.Algebra.Group.Nat.Defs

/-! The bit patterns of scalars. Every scalar type of width `w` has exactly `256 ^ w` values, and
`bits` and `ofBits` translate between the values and the numbers below that bound. -/
namespace Dataflow.Wire.Scalar

theorem bits_lt (s : Scalar) (value : s.Val) : s.bits value < 256 ^ s.width := by
  cases s with
  | u8 => exact UInt8.toNat_lt value
  | u16 => exact UInt16.toNat_lt value
  | u32 => exact UInt32.toNat_lt value
  | u64 => exact UInt64.toNat_lt value
  | i8 => exact UInt8.toNat_lt (Int8.toUInt8 value)
  | i16 => exact UInt16.toNat_lt (Int16.toUInt16 value)
  | i32 => exact UInt32.toNat_lt (Int32.toUInt32 value)
  | i64 => exact UInt64.toNat_lt (Int64.toUInt64 value)
  | char => exact UInt8.toNat_lt (Int8.toUInt8 value)
  | f32 => exact UInt32.toNat_lt value
  | f64 => exact UInt64.toNat_lt value
  | level => exact UInt8.toNat_lt (Level.code value)
  | point =>
      obtain ⟨x, y, z⟩ := value
      have hx := x.toUInt32.toNat_lt
      have hy := y.toNat_lt
      have hz := z.toNat_lt
      simp only [bits, width, UInt32.size, UInt16.size]
      omega

/-- The words of a point are recovered from the number that they spell. -/
theorem ofBits_bits_point (value : Point) : ofBits .point (bits .point value) = value := by
  obtain ⟨x, y, z⟩ := value
  have hx := x.toUInt32.toNat_lt
  have hy := y.toNat_lt
  have hz := z.toNat_lt
  have hLow : UInt32.ofNat (x.toUInt32.toNat + UInt32.size * (y.toNat + UInt16.size * z.toNat)) =
      x.toUInt32 := by
    apply UInt32.toNat_inj.mp
    rw [UInt32.toNat_ofNat', UInt32.size]
    omega
  have hMiddle : UInt16.ofNat
      ((x.toUInt32.toNat + UInt32.size * (y.toNat + UInt16.size * z.toNat)) / UInt32.size) = y := by
    apply UInt16.toNat_inj.mp
    rw [UInt16.toNat_ofNat', UInt32.size, UInt16.size]
    omega
  have hHigh : UInt16.ofNat
      ((x.toUInt32.toNat + UInt32.size * (y.toNat + UInt16.size * z.toNat)) / (UInt32.size * UInt16.size)) = z := by
    apply UInt16.toNat_inj.mp
    rw [UInt16.toNat_ofNat', UInt32.size, UInt16.size]
    omega
  simp only [ofBits, bits, hLow, hMiddle, hHigh, Int32.toInt32_toUInt32]

/-- A scalar is told by its bits. -/
theorem ofBits_bits (s : Scalar) (value : s.Val) : s.ofBits (s.bits value) = value := by
  cases s with
  | u8 => exact UInt8.ofNat_toNat
  | u16 => exact UInt16.ofNat_toNat
  | u32 => exact UInt32.ofNat_toNat
  | u64 => exact UInt64.ofNat_toNat
  | i8 => simp only [ofBits, bits, UInt8.ofNat_toNat, Int8.toInt8_toUInt8]
  | i16 => simp only [ofBits, bits, UInt16.ofNat_toNat, Int16.toInt16_toUInt16]
  | i32 => simp only [ofBits, bits, UInt32.ofNat_toNat, Int32.toInt32_toUInt32]
  | i64 => simp only [ofBits, bits, UInt64.ofNat_toNat, Int64.toInt64_toUInt64]
  | char => simp only [ofBits, bits, UInt8.ofNat_toNat, Int8.toInt8_toUInt8]
  | f32 => exact UInt32.ofNat_toNat
  | f64 => exact UInt64.ofNat_toNat
  | level => simp only [ofBits, bits, UInt8.ofNat_toNat]
  | point => exact ofBits_bits_point value

theorem bits_ofBits (s : Scalar) {n : Nat} (h : n < 256 ^ s.width) : s.bits (s.ofBits n) = n := by
  cases s with
  | u8 => exact UInt8.toNat_ofNat_of_lt' h
  | u16 => exact UInt16.toNat_ofNat_of_lt' h
  | u32 => exact UInt32.toNat_ofNat_of_lt' h
  | u64 => exact UInt64.toNat_ofNat_of_lt' h
  | i8 => exact UInt8.toNat_ofNat_of_lt' h
  | i16 => exact UInt16.toNat_ofNat_of_lt' h
  | i32 => exact UInt32.toNat_ofNat_of_lt' h
  | i64 => exact UInt64.toNat_ofNat_of_lt' h
  | char => exact UInt8.toNat_ofNat_of_lt' h
  | f32 => exact UInt32.toNat_ofNat_of_lt' h
  | f64 => exact UInt64.toNat_ofNat_of_lt' h
  | level => exact UInt8.toNat_ofNat_of_lt' h
  | point =>
      simp only [width] at h
      simp only [bits, ofBits, UInt32.toUInt32_toInt32, UInt32.toNat_ofNat', UInt16.toNat_ofNat',
        UInt32.size, UInt16.size]
      omega

end Dataflow.Wire.Scalar
