import Dataflow.Hash
import Mathlib.Logic.Function.Basic

/-! Steps on words that can be undone: multiplication by a word that has an inverse, and the xor of a
word with its own upper part. -/
namespace Dataflow.Hash

/-- A product with a unit can be undone. -/
theorem mul_unit_cancel {unit inverse : UInt64} (h : unit * inverse = 1) (x : UInt64) :
    x * unit * inverse = x := by
  rw [UInt64.mul_assoc, h, UInt64.mul_one]

theorem mul_unit_injective {unit inverse : UInt64} (h : unit * inverse = 1) :
    Function.Injective (· * unit) := by
  intro x y hEq
  calc x = x * unit * inverse := (mul_unit_cancel h x).symm
    _ = y * unit * inverse := congrArg (· * inverse) hEq
    _ = y := mul_unit_cancel h y

def xorShift (k x : UInt64) : UInt64 := x ^^^ (x >>> k)

/-- Undoes `xorShift` for shifts of which three leave nothing of a word. -/
def unXorShift (k x : UInt64) : UInt64 := x ^^^ (x >>> k) ^^^ (x >>> k >>> k)

/-- Three shifts by more than a third of a word empty it. -/
theorem shiftRight_thrice {k : UInt64} (hLow : 64 ≤ 3 * k.toNat) (hHigh : k.toNat < 64)
    (x : UInt64) : x >>> k >>> k >>> k = 0 := by
  apply UInt64.toNat_inj.mp
  have hBound : x.toNat < 2 ^ (k.toNat + (k.toNat + k.toNat)) :=
    Nat.lt_of_lt_of_le x.toNat_lt (Nat.pow_le_pow_right (by decide) (by omega))
  rw [UInt64.toNat_shiftRight, UInt64.toNat_shiftRight, UInt64.toNat_shiftRight,
    Nat.mod_eq_of_lt hHigh, ← Nat.shiftRight_add, ← Nat.shiftRight_add]
  exact Nat.shiftRight_eq_zero _ _ hBound

/-- A shift of at least a third of the word can be undone. -/
theorem unXorShift_xorShift {k : UInt64} (hLow : 64 ≤ 3 * k.toNat) (hHigh : k.toNat < 64)
    (x : UInt64) : unXorShift k (xorShift k x) = x := by
  have hGone := shiftRight_thrice hLow hHigh x
  calc unXorShift k (xorShift k x)
      = (x ^^^ x >>> k) ^^^ (x >>> k ^^^ x >>> k >>> k) ^^^ (x >>> k >>> k ^^^ 0) := by
        simp only [unXorShift, xorShift, UInt64.shiftRight_xor, hGone]
    _ = x := by simp only [UInt64.xor_assoc, UInt64.xor_self, UInt64.xor_zero]

/-- And what undoes it is undone by it. -/
theorem xorShift_unXorShift {k : UInt64} (hLow : 64 ≤ 3 * k.toNat) (hHigh : k.toNat < 64)
    (x : UInt64) : xorShift k (unXorShift k x) = x := by
  have hGone := shiftRight_thrice hLow hHigh x
  calc xorShift k (unXorShift k x)
      = x ^^^ x >>> k ^^^ x >>> k >>> k ^^^ (x >>> k ^^^ x >>> k >>> k ^^^ 0) := by
        simp only [unXorShift, xorShift, UInt64.shiftRight_xor, hGone]
    _ = x ^^^ ((x >>> k ^^^ x >>> k >>> k) ^^^ (x >>> k ^^^ x >>> k >>> k)) := by
        simp only [UInt64.xor_assoc, UInt64.xor_zero]
    _ = x := by rw [UInt64.xor_self, UInt64.xor_zero]

end Dataflow.Hash
