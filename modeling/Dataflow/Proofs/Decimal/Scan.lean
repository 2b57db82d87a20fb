import Dataflow.Decimal
import Mathlib.Data.List.TakeWhile

/-! Reading digits into a word. The product and the sum with which a digit is put behind a word wrap
exactly if the longer number takes more than 64 bits. A scan therefore tells the number of all the
digits in front of a text, however many they are, or that no word can hold it. -/
namespace Dataflow.Decimal

/-- Dividing tells whether the product of a word with ten has wrapped. -/
theorem mul_ten_div_ten_iff (word : UInt64) :
    word * 10 / 10 = word ↔ 10 * word.toNat < bound := by
  have hWord := word.toNat_lt
  have hQuotient : (word * 10 / 10).toNat = word.toNat * 10 % 2 ^ 64 / 10 := by
    rw [UInt64.toNat_div, UInt64.toNat_mul]
    rfl
  rw [← UInt64.toNat_inj, hQuotient, bound, UInt64.size]
  omega

/-- Comparing tells whether a sum of words has wrapped. -/
theorem le_add_iff (word other : UInt64) :
    word ≤ word + other ↔ word.toNat + other.toNat < bound := by
  have hWord := word.toNat_lt
  have hOther := other.toNat_lt
  rw [UInt64.le_iff_toNat_le, UInt64.toNat_add, bound, UInt64.size]
  omega

theorem toNat_digit_sub {digit : UInt8} (h : isDigit digit = true) :
    (digit - 48).toNat = digit.toNat - 48 := by
  simp only [isDigit, Bool.and_eq_true, decide_eq_true_eq] at h
  exact UInt8.toNat_sub_of_le _ _ h.1

/-- Nothing wraps exactly as long as a word can hold the number. -/
theorem extend?_eq {digit : UInt8} (h : isDigit digit = true) (word : UInt64) :
    extend? word digit =
      if 10 * word.toNat + (digit.toNat - 48) < bound then
        some (UInt64.ofNat (10 * word.toNat + (digit.toNat - 48)))
      else none := by
  have hDigit : (digit - 48).toUInt64.toNat = digit.toNat - 48 := by
    rw [UInt8.toNat_toUInt64, toNat_digit_sub h]
  have hSame : word * 10 + (digit - 48).toUInt64 =
      UInt64.ofNat (10 * word.toNat + (digit.toNat - 48)) := by
    rw [← hDigit, UInt64.ofNat_add, UInt64.ofNat_mul, UInt64.ofNat_toNat, UInt64.ofNat_toNat,
      UInt64.mul_comm]
    rfl
  by_cases hTens : 10 * word.toNat < bound
  · have hExact : (word * 10).toNat = 10 * word.toNat := by
      rw [UInt64.toNat_mul, Nat.mul_comm]
      exact Nat.mod_eq_of_lt hTens
    have hSum : word * 10 ≤ word * 10 + (digit - 48).toUInt64 ↔
        10 * word.toNat + (digit.toNat - 48) < bound := by
      rw [le_add_iff, hExact, hDigit]
    simp only [extend?, mul_ten_div_ten_iff, hTens, hSum, true_and]
    rw [hSame]
  · have hLarge : ¬ 10 * word.toNat + (digit.toNat - 48) < bound := by omega
    simp only [extend?, mul_ten_div_ten_iff, hTens, false_and, if_false, hLarge]

/-- The number spelled by digits that stand behind those of another number. -/
def valueFrom (n : Nat) (digits : Bytes) : Nat :=
  digits.foldl (fun n d => 10 * n + (d.toNat - 48)) n

theorem value_eq (digits : Bytes) : value digits = valueFrom 0 digits := rfl

theorem valueFrom_cons (n : Nat) (d : UInt8) (digits : Bytes) :
    valueFrom n (d :: digits) = valueFrom (10 * n + (d.toNat - 48)) digits := by
  rw [valueFrom, List.foldl_cons, valueFrom]

/-- Further digits do not make a number smaller. -/
theorem le_valueFrom (n : Nat) (digits : Bytes) : n ≤ valueFrom n digits := by
  induction digits generalizing n with
  | nil => exact Nat.le_refl n
  | cons d digits ih =>
      have hNext : n ≤ 10 * n + (d.toNat - 48) := by omega
      rw [valueFrom_cons]
      exact Nat.le_trans hNext (ih _)

/-- Once the number is too large, the other digits are only passed over. -/
theorem scanDigits_none (text : Bytes) :
    scanDigits none text = (none, text.dropWhile isDigit) := by
  induction text with
  | nil => rfl
  | cons b text ih =>
      rw [scanDigits, List.dropWhile_cons]
      split
      · exact ih
      · rfl

/-- The word in hand goes on to the number of all digits, as long as that is a word. -/
theorem scanDigits_some (word : UInt64) (text : Bytes) :
    scanDigits (some word) text =
      (if valueFrom word.toNat (text.takeWhile isDigit) < bound then
        some (UInt64.ofNat (valueFrom word.toNat (text.takeWhile isDigit)))
      else none, text.dropWhile isDigit) := by
  have hNone (word : UInt64) : (if valueFrom word.toNat [] < bound then
      some (UInt64.ofNat (valueFrom word.toNat [])) else none) = some word := by
    have hWord : word.toNat < bound := word.toNat_lt
    rw [valueFrom, List.foldl_nil, if_pos hWord, UInt64.ofNat_toNat]
  induction text generalizing word with
  | nil => rw [List.takeWhile_nil, hNone, List.dropWhile_nil, scanDigits]
  | cons b text ih =>
      by_cases hDigit : isDigit b = true
      · rw [scanDigits, if_pos hDigit, List.takeWhile_cons_of_pos hDigit,
          List.dropWhile_cons_of_pos hDigit, valueFrom_cons, Option.bind_some, extend?_eq hDigit]
        split
        · rename_i hFits
          rw [ih, UInt64.toNat_ofNat_of_lt' hFits]
        · rename_i hLarge
          have hMore := le_valueFrom (10 * word.toNat + (b.toNat - 48)) (text.takeWhile isDigit)
          rw [scanDigits_none, if_neg (by omega)]
      · rw [scanDigits, if_neg hDigit, List.takeWhile_cons_of_neg hDigit,
          List.dropWhile_cons_of_neg hDigit, hNone]

/-- A scan stops behind the digits that a text begins with. It tells their number if there are any
and a word can hold it. -/
theorem scan_eq (text : Bytes) :
    scan text =
      (if text.takeWhile isDigit ≠ [] ∧ value (text.takeWhile isDigit) < bound then
        some (UInt64.ofNat (value (text.takeWhile isDigit)))
      else none, text.dropWhile isDigit) := by
  cases text with
  | nil => rfl
  | cons b text =>
      by_cases hDigit : isDigit b = true
      · simp [scan, hDigit, scanDigits_some, value_eq]
      · simp [scan, hDigit]

/-- Nothing but digits, and a number that a word can hold. -/
theorem read?_eq_some_iff {text : Bytes} {n : Nat} :
    read? text = some n ↔
      text ≠ [] ∧ text.all isDigit = true ∧ value text = n ∧ n < bound := by
  rw [List.all_eq_true]
  by_cases hAll : ∀ b ∈ text, isDigit b = true
  · rw [read?, scan_eq, List.takeWhile_eq_self_iff.mpr hAll, List.dropWhile_eq_nil_iff.mpr hAll]
    by_cases hFits : text ≠ [] ∧ value text < bound
    · rw [if_pos hFits]
      simp only [Option.some.injEq, UInt64.toNat_ofNat_of_lt' hFits.2]
      constructor
      · rintro rfl
        exact ⟨hFits.1, hAll, rfl, hFits.2⟩
      · rintro ⟨-, -, hValue, -⟩
        exact hValue
    · rw [if_neg hFits]
      simp only [reduceCtorEq, false_iff]
      rintro ⟨hNonempty, -, rfl, hBound⟩
      exact hFits ⟨hNonempty, hBound⟩
  · have hRest : text.dropWhile isDigit ≠ [] := by rwa [ne_eq, List.dropWhile_eq_nil_iff]
    have hRead : read? text = none := by
      rw [read?, scan_eq]
      split
      · rename_i hEnd
        exact absurd (congrArg Prod.snd hEnd) hRest
      · rfl
    simp [hRead, hAll]

end Dataflow.Decimal
