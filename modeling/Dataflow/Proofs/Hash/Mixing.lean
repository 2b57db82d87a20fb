import Dataflow.RecordHash
import Dataflow.Proofs.Hash.Words
import Dataflow.Proofs.Wire.Number

/-! Whole numbers as keys. Mixing permutes the words, and the keys of a type are widened to distinct
words, so no two of them share a hash. -/
namespace Dataflow.Hash

open Wire (Scalar)

/-- Undoes the steps of `splitMix`, the last one first. The factors are the inverses of those that
`splitMix` multiplies by. -/
def unmix (y : UInt64) : UInt64 :=
  unXorShift 30 (unXorShift 27 (unXorShift 31 y * 0x319642b2d24d8ec3) * 0x96de1b173f119089)
    - 0x9e3779b97f4a7c15

/-- The mixing is three shifts, two products and a sum, each of which can be undone. -/
theorem splitMix_eq (x : UInt64) :
    splitMix x = xorShift 31 (xorShift 27 (xorShift 30 (x + 0x9e3779b97f4a7c15)
      * 0xbf58476d1ce4e5b9) * 0x94d049bb133111eb) :=
  rfl

/-- Mixing is undone step by step. -/
theorem unmix_splitMix (x : UInt64) : unmix (splitMix x) = x := by
  have hFirst : (0xbf58476d1ce4e5b9 : UInt64) * 0x96de1b173f119089 = 1 := by decide
  have hSecond : (0x94d049bb133111eb : UInt64) * 0x319642b2d24d8ec3 = 1 := by decide
  rw [splitMix_eq, unmix, unXorShift_xorShift (by decide) (by decide), mul_unit_cancel hSecond,
    unXorShift_xorShift (by decide) (by decide), mul_unit_cancel hFirst,
    unXorShift_xorShift (by decide) (by decide), UInt64.add_sub_cancel]

/-- Undoing is undone by mixing. -/
theorem splitMix_unmix (y : UInt64) : splitMix (unmix y) = y := by
  have hFirst : (0x96de1b173f119089 : UInt64) * 0xbf58476d1ce4e5b9 = 1 := by decide
  have hSecond : (0x319642b2d24d8ec3 : UInt64) * 0x94d049bb133111eb = 1 := by decide
  rw [splitMix_eq, unmix, UInt64.sub_add_cancel, xorShift_unXorShift (by decide) (by decide),
    mul_unit_cancel hFirst, xorShift_unXorShift (by decide) (by decide), mul_unit_cancel hSecond,
    xorShift_unXorShift (by decide) (by decide)]

/-- Every word is the mixing of exactly one word. -/
theorem splitMix_bijective : Function.Bijective splitMix :=
  Function.bijective_iff_has_inverse.mpr ⟨unmix, unmix_splitMix, splitMix_unmix⟩

/-- Keys of one type are mixed to different words. -/
theorem mix_injective (s : Scalar) : Function.Injective (mix s) :=
  splitMix_bijective.injective.comp s.widen_injective

theorem mixBool_injective : Function.Injective mixBool := by
  intro a b h
  have hWord := splitMix_bijective.injective h
  cases a <;> cases b <;> simp_all

/-- Every word is the mixture of exactly one word. A key is mixed as its number up to multiples of
`2 ^ 64`, and two keys of a type share their hash only if they are the same. -/
theorem mixing_never_collides :
    Function.Bijective splitMix ∧
    (∀ (s : Scalar) (key : s.Val), mix s key = splitMix (UInt64.ofInt (s.number key))) ∧
    (∀ (s : Scalar) (a b : s.Val), mix s a = mix s b ↔ a = b) ∧
    ∀ a b : Bool, mixBool a = mixBool b ↔ a = b := by
  refine ⟨splitMix_bijective, ?_, ?_, ?_⟩
  · intro s key
    rw [mix, s.widen_eq_ofInt_number]
  · exact fun s a b => (mix_injective s).eq_iff
  · exact fun a b => mixBool_injective.eq_iff

end Dataflow.Hash
