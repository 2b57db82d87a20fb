import Dataflow.Log
import Dataflow.Message

/-!
The types of timestamps and records that have a wire form. A `Ty` is the description of a type and
`Ty.Val` the type it describes.
-/

namespace Dataflow.Wire

/-- A record of three words that travels as one block of eight bytes. -/
structure Point where
  x : Int32
  y : UInt16
  z : UInt16
  deriving DecidableEq

/-- Types whose every value takes the same number of bytes and whose every block of that many bytes
is a value. Floating-point numbers stand as their bit patterns. -/
inductive Scalar where
  | u8 | u16 | u32 | u64
  | i8 | i16 | i32 | i64
  | char
  | f32 | f64
  | level
  | point
  deriving DecidableEq

namespace Scalar

@[reducible] def Val : Scalar → Type
  | u8 => UInt8
  | u16 => UInt16
  | u32 => UInt32
  | u64 => UInt64
  | i8 => Int8
  | i16 => Int16
  | i32 => Int32
  | i64 => Int64
  | char => Int8
  | f32 => UInt32
  | f64 => UInt64
  | level => Level
  | point => Point

/-- The number of bytes of a value. -/
def width : Scalar → Nat
  | u8 | i8 | char | level => 1
  | u16 | i16 => 2
  | u32 | i32 | f32 => 4
  | u64 | i64 | f64 | point => 8

def isIntegral : Scalar → Bool
  | u8 | u16 | u32 | u64 | i8 | i16 | i32 | i64 | char => true
  | f32 | f64 | level | point => false

/-- The block of bytes of a value, read as one number below `256 ^ width`. Negative numbers are in
two's complement. -/
def bits : (s : Scalar) → s.Val → Nat
  | u8, v => UInt8.toNat v
  | u16, v => UInt16.toNat v
  | u32, v => UInt32.toNat v
  | u64, v => UInt64.toNat v
  | i8, v => (Int8.toUInt8 v).toNat
  | i16, v => (Int16.toUInt16 v).toNat
  | i32, v => (Int32.toUInt32 v).toNat
  | i64, v => (Int64.toUInt64 v).toNat
  | char, v => (Int8.toUInt8 v).toNat
  | f32, v => UInt32.toNat v
  | f64, v => UInt64.toNat v
  | level, v => (Level.code v).toNat
  | point, v =>
    (Point.x v).toUInt32.toNat
      + UInt32.size * ((Point.y v).toNat + UInt16.size * (Point.z v).toNat)

/-- The value whose block of bytes spells this number. -/
def ofBits : (s : Scalar) → Nat → s.Val
  | u8, n => UInt8.ofNat n
  | u16, n => UInt16.ofNat n
  | u32, n => UInt32.ofNat n
  | u64, n => UInt64.ofNat n
  | i8, n => (UInt8.ofNat n).toInt8
  | i16, n => (UInt16.ofNat n).toInt16
  | i32, n => (UInt32.ofNat n).toInt32
  | i64, n => (UInt64.ofNat n).toInt64
  | char, n => (UInt8.ofNat n).toInt8
  | f32, n => UInt32.ofNat n
  | f64, n => UInt64.ofNat n
  | level, n => ⟨UInt8.ofNat n⟩
  | point, n =>
    ⟨(UInt32.ofNat n).toInt32, UInt16.ofNat (n / UInt32.size),
      UInt16.ofNat (n / (UInt32.size * UInt16.size))⟩

/-- The value widened to a 64-bit word. Whole numbers keep their sign; the other types keep their
bit pattern. -/
def widen : (s : Scalar) → s.Val → UInt64
  | i8, v => (Int8.toInt64 v).toUInt64
  | i16, v => (Int16.toInt64 v).toUInt64
  | i32, v => (Int32.toInt64 v).toUInt64
  | i64, v => Int64.toUInt64 v
  | char, v => (Int8.toInt64 v).toUInt64
  | s, v => UInt64.ofNat (s.bits v)

instance decEqVal : (s : Scalar) → DecidableEq s.Val
  | u8 => inferInstanceAs (DecidableEq UInt8)
  | u16 => inferInstanceAs (DecidableEq UInt16)
  | u32 => inferInstanceAs (DecidableEq UInt32)
  | u64 => inferInstanceAs (DecidableEq UInt64)
  | i8 => inferInstanceAs (DecidableEq Int8)
  | i16 => inferInstanceAs (DecidableEq Int16)
  | i32 => inferInstanceAs (DecidableEq Int32)
  | i64 => inferInstanceAs (DecidableEq Int64)
  | char => inferInstanceAs (DecidableEq Int8)
  | f32 => inferInstanceAs (DecidableEq UInt32)
  | f64 => inferInstanceAs (DecidableEq UInt64)
  | level => inferInstanceAs (DecidableEq Level)
  | point => inferInstanceAs (DecidableEq Point)

end Scalar

/-- Types of timestamps and records. -/
inductive Ty where
  | scalar (s : Scalar)
  | bool
  /-- Byte strings. -/
  | str
  | pair (first second : Ty)
  /-- Sequences of any length. -/
  | vec (item : Ty)
  deriving DecidableEq

namespace Ty

@[reducible] def Val : Ty → Type
  | scalar s => s.Val
  | bool => Bool
  | str => Bytes
  | pair first second => first.Val × second.Val
  | vec item => List item.Val

instance decEqVal : (t : Ty) → DecidableEq t.Val
  | scalar s => Scalar.decEqVal s
  | bool => inferInstanceAs (DecidableEq Bool)
  | str => inferInstanceAs (DecidableEq Bytes)
  | pair first second =>
    have := decEqVal first
    have := decEqVal second
    inferInstanceAs (DecidableEq (first.Val × second.Val))
  | vec item =>
    have := decEqVal item
    inferInstanceAs (DecidableEq (List item.Val))

/-- Texts and sequences leave nothing behind; plain values stay. -/
def husk : (t : Ty) → t.Val → t.Val
  | scalar _, v => v
  | bool, v => v
  | str, _ => []
  | pair first second, v => (husk first v.1, husk second v.2)
  | vec _, _ => []

/-- Whether a value of the type has a truth value somewhere inside. -/
def hasBool : Ty → Bool
  | scalar _ => false
  | bool => true
  | str => false
  | pair first second => hasBool first || hasBool second
  | vec item => hasBool item

end Ty

/-- A value together with its type, for channels whose type is known only at run time. -/
abbrev Datum := (t : Ty) × t.Val

instance : Husk Datum := ⟨fun d => ⟨d.1, d.1.husk d.2⟩⟩

end Dataflow.Wire
