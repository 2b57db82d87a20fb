import Dataflow.Proofs.Wire.Scalar
import Mathlib.Logic.Function.Basic

/-! The whole numbers that scalars stand for. A signed type reads its bit pattern in two's
complement, and widening a value to a word keeps its number up to multiples of `2 ^ 64`. -/
namespace Dataflow.Wire.Scalar

/-- Whether there are values below zero. -/
def isSigned : Scalar → Bool
  | i8 | i16 | i32 | i64 | char => true
  | u8 | u16 | u32 | u64 | f32 | f64 | level | point => false

/-- The whole number of a value. Types without whole numbers stand for their bit patterns. -/
def number : (s : Scalar) → s.Val → Int
  | i8, v => Int8.toInt v
  | i16, v => Int16.toInt v
  | i32, v => Int32.toInt v
  | i64, v => Int64.toInt v
  | char, v => Int8.toInt v
  | s, v => (s.bits v : Int)

/-- The balanced remainder puts the upper half of the bit patterns below zero. -/
theorem number_ofBits (s : Scalar) {n : Nat} (h : n < 256 ^ s.width) :
    s.number (s.ofBits n) = if s.isSigned then Int.bmod n (256 ^ s.width) else (n : Int) := by
  cases s with
  | u8 => exact congrArg Nat.cast (bits_ofBits .u8 h)
  | u16 => exact congrArg Nat.cast (bits_ofBits .u16 h)
  | u32 => exact congrArg Nat.cast (bits_ofBits .u32 h)
  | u64 => exact congrArg Nat.cast (bits_ofBits .u64 h)
  | i8 => simp [number, ofBits, isSigned, width]
  | i16 => simp [number, ofBits, isSigned, width]
  | i32 => simp [number, ofBits, isSigned, width]
  | i64 => simp [number, ofBits, isSigned, width]
  | char => simp [number, ofBits, isSigned, width]
  | f32 => exact congrArg Nat.cast (bits_ofBits .f32 h)
  | f64 => exact congrArg Nat.cast (bits_ofBits .f64 h)
  | level => exact congrArg Nat.cast (bits_ofBits .level h)
  | point => exact congrArg Nat.cast (bits_ofBits .point h)

/-- A word with a sign and one without have the same bits if their numbers differ by a multiple of
`2 ^ 64`. -/
theorem ofInt_toInt (value : Int64) : UInt64.ofInt value.toInt = value.toUInt64 := by
  have hBits : value.toInt = (value.toUInt64.toNat : Int).bmod (2 ^ 64) :=
    BitVec.toInt_eq_toNat_bmod value.toBitVec
  have hBound : (value.toUInt64.toNat : Int) < (2 ^ 64 : Nat) :=
    Int.ofNat_lt.mpr value.toUInt64.toNat_lt
  have hMod : value.toInt % (2 ^ 64 : Nat) = value.toUInt64.toNat := by
    rw [hBits, Int.bmod_emod, Int.emod_eq_of_lt (Int.natCast_nonneg _) hBound]
  calc UInt64.ofInt value.toInt
      = UInt64.ofNat (value.toInt % (2 ^ 64 : Nat)).toNat := rfl
    _ = value.toUInt64 := by rw [hMod, Int.toNat_natCast, UInt64.ofNat_toNat]

theorem ofInt_natCast (n : Nat) : UInt64.ofInt n = UInt64.ofNat n := by
  apply UInt64.toNat_inj.mp
  simp only [UInt64.ofInt, UInt64.toNat_ofNat']
  omega

/-- Signed types repeat their sign in the upper bytes, and the others fill these with zeros. -/
theorem widen_eq_ofInt_number (s : Scalar) (value : s.Val) :
    s.widen value = UInt64.ofInt (s.number value) := by
  cases s with
  | i8 => rw [widen, ← ofInt_toInt, Int8.toInt_toInt64, number]
  | i16 => rw [widen, ← ofInt_toInt, Int16.toInt_toInt64, number]
  | i32 => rw [widen, ← ofInt_toInt, Int32.toInt_toInt64, number]
  | i64 => exact (ofInt_toInt value).symm
  | char => rw [widen, ← ofInt_toInt, Int8.toInt_toInt64, number]
  | u8 => exact (ofInt_natCast (bits .u8 value)).symm
  | u16 => exact (ofInt_natCast (bits .u16 value)).symm
  | u32 => exact (ofInt_natCast (bits .u32 value)).symm
  | u64 => exact (ofInt_natCast (bits .u64 value)).symm
  | f32 => exact (ofInt_natCast (bits .f32 value)).symm
  | f64 => exact (ofInt_natCast (bits .f64 value)).symm
  | level => exact (ofInt_natCast (bits .level value)).symm
  | point => exact (ofInt_natCast (bits .point value)).symm

theorem number_emod (s : Scalar) (value : s.Val) :
    s.number value % (256 ^ s.width : Nat) = s.bits value := by
  have hBound : (s.bits value : Int) < (256 ^ s.width : Nat) := Int.ofNat_lt.mpr (s.bits_lt value)
  have hBits : (s.bits value : Int) % (256 ^ s.width : Nat) = s.bits value :=
    Int.emod_eq_of_lt (Int.natCast_nonneg _) hBound
  rw [← s.ofBits_bits value, s.number_ofBits (s.bits_lt value), s.ofBits_bits]
  split
  · rw [Int.bmod_emod, hBits]
  · exact hBits

/-- The low bytes of a widened value are its own. -/
theorem toNat_widen_mod (s : Scalar) (value : s.Val) :
    (s.widen value).toNat % 256 ^ s.width = s.bits value := by
  have hDvd : ((256 ^ s.width : Nat) : Int) ∣ (2 ^ 64 : Nat) := by
    cases s <;> exact Int.natCast_dvd_natCast.mpr (by decide)
  have hWord : ((s.widen value).toNat : Int) = s.number value % (2 ^ 64 : Nat) := by
    rw [widen_eq_ofInt_number, UInt64.ofInt, UInt64.toNat_ofNat']
    omega
  apply Int.natCast_inj.mp
  rw [Int.natCast_emod, hWord, Int.emod_emod_of_dvd _ hDvd, number_emod]

/-- Widening keeps the values of one type apart. -/
theorem widen_injective (s : Scalar) : Function.Injective s.widen := by
  intro a b h
  rw [← s.ofBits_bits a, ← toNat_widen_mod, h, toNat_widen_mod, s.ofBits_bits]

end Dataflow.Wire.Scalar
