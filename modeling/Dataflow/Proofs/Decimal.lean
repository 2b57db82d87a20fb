import Dataflow.Decimal
import Mathlib.Algebra.Group.Nat.Defs

/-! Decimal numerals. A numeral tells its number, and it can be told from what follows it as long as
that does not begin with another digit. -/
namespace Dataflow.Decimal

theorem toNat_digit {c : Char} (h : c.isDigit = true) :
    c.toNat.toUInt8.toNat = c.toNat ∧ isDigit c.toNat.toUInt8 = true := by
  simp only [Char.isDigit, Bool.and_eq_true, decide_eq_true_eq] at h
  have hLow : 48 ≤ c.toNat := UInt32.le_iff_toNat_le.mp h.1
  have hHigh : c.toNat ≤ 57 := UInt32.le_iff_toNat_le.mp h.2
  have hSame : c.toNat.toUInt8.toNat = c.toNat := by
    rw [Nat.toUInt8, UInt8.toNat_ofNat']
    exact Nat.mod_eq_of_lt (by omega)
  refine ⟨hSame, ?_⟩
  simp only [isDigit, Bool.and_eq_true, decide_eq_true_eq, UInt8.le_iff_toNat_le, hSame]
  exact ⟨hLow, hHigh⟩

/-- A number is printed in digits. -/
theorem isDigit_of_mem_render {n : Nat} {b : UInt8} (h : b ∈ render n) : isDigit b = true := by
  obtain ⟨c, hc, rfl⟩ := List.mem_map.mp h
  exact (toNat_digit (Nat.isDigit_of_mem_toDigits (by decide) (by decide) hc)).2

theorem render_ne_nil (n : Nat) : render n ≠ [] :=
  fun hEmpty => Nat.toDigits_ne_nil (List.map_eq_nil_iff.mp hEmpty)

/-- A number has at most `k` digits if it is below that power of ten, and only then. -/
theorem length_render_le_iff {n k : Nat} (h : 0 < k) : (render n).length ≤ k ↔ n < 10 ^ k := by
  rw [render, List.length_map]
  exact Nat.length_toDigits_le_iff (by decide) h

/-- A printed number is read back. -/
theorem value_render (n : Nat) : value (render n) = n := by
  have hDigits (digits : List Char) (h : ∀ c ∈ digits, c.isDigit = true) (m : Nat) :
      (digits.map fun c => c.toNat.toUInt8).foldl (fun n d => 10 * n + (d.toNat - 48)) m =
        Nat.ofDigitChars 10 digits m := by
    induction digits generalizing m with
    | nil => rfl
    | cons c digits ih =>
        rw [List.forall_mem_cons] at h
        rw [List.map_cons, List.foldl_cons, (toNat_digit h.1).1]
        exact ih h.2 _
  rw [value, render, hDigits _ fun c => Nat.isDigit_of_mem_toDigits (by decide) (by decide)]
  exact Nat.ofDigitChars_ten_toDigits

/-- Digits are told from what stands behind them. -/
theorem takeWhile_isDigit_append {digits behind : Bytes} (hDigits : ∀ b ∈ digits, isDigit b = true)
    (hBehind : ∀ b ∈ behind.head?, isDigit b = false) :
    (digits ++ behind).takeWhile isDigit = digits := by
  rw [List.takeWhile_append_of_pos hDigits]
  cases behind with
  | nil => exact List.append_nil _
  | cons b behind =>
      rw [List.takeWhile_cons, hBehind b rfl, if_neg Bool.false_ne_true, List.append_nil]

/-- A numeral ends where the digits do. -/
theorem render_append_inj {n m : Nat} {behind other : Bytes}
    (hBehind : ∀ b ∈ behind.head?, isDigit b = false)
    (hOther : ∀ b ∈ other.head?, isDigit b = false) :
    render n ++ behind = render m ++ other ↔ n = m ∧ behind = other := by
  constructor
  · intro hSame
    have hNumerals := congrArg (List.takeWhile isDigit) hSame
    rw [takeWhile_isDigit_append (fun b => isDigit_of_mem_render) hBehind,
      takeWhile_isDigit_append (fun b => isDigit_of_mem_render) hOther] at hNumerals
    rw [hNumerals] at hSame
    refine ⟨?_, List.append_cancel_left hSame⟩
    rw [← value_render n, hNumerals, value_render]
  · rintro ⟨rfl, rfl⟩
    rfl

/-- A numeral before a fixed word that does not begin with a digit. -/
theorem render_append_word_inj {n m : Nat} {word rest rest' : Bytes}
    (hWord : word.head?.any (fun b => !isDigit b) = true) :
    render n ++ (word ++ rest) = render m ++ (word ++ rest') ↔ n = m ∧ rest = rest' := by
  cases word with
  | nil => cases hWord
  | cons b word =>
      have hHead : isDigit b = false := by simpa using hWord
      have hBehind (more : Bytes) : ∀ d ∈ (b :: word ++ more).head?, isDigit d = false := by
        rintro d ⟨⟩
        exact hHead
      rw [render_append_inj (hBehind rest) (hBehind rest'), List.append_cancel_left_eq]

end Dataflow.Decimal
