import Dataflow.Proofs.Config.Token
import Dataflow.Proofs.Decimal
import Mathlib.Data.List.Induction
import Mathlib.Data.Nat.Digits.Defs

/-! Sizes as they are given for a flag. A text is read as a size exactly if it consists of decimal
digits and a word can hold their number, leading zeros included. Any other text is refused with an
error that repeats it. -/
namespace Dataflow

namespace Decimal

def digitByte (d : Nat) : UInt8 := UInt8.ofNat (48 + d)

/-- Whether a text consists of the characters of one or more digits, the highest first, that have
this value in base ten. -/
def Writes (text : Bytes) (n : Nat) : Prop :=
  ∃ digits : List Nat, digits ≠ [] ∧ (∀ d ∈ digits, d < 10) ∧ text = digits.map digitByte ∧
    Nat.ofDigits 10 digits.reverse = n

theorem toNat_digitByte {d : Nat} (h : d < 10) : (digitByte d).toNat = 48 + d := by
  rw [digitByte, UInt8.toNat_ofNat']
  exact Nat.mod_eq_of_lt (by omega)

/-- The digits are the characters of the numbers below ten. -/
theorem isDigit_iff {b : UInt8} : isDigit b = true ↔ ∃ d < 10, b = digitByte d := by
  simp only [isDigit, Bool.and_eq_true, decide_eq_true_eq, UInt8.le_iff_toNat_le]
  constructor
  · rintro ⟨hLow, hHigh⟩
    have hLow : 48 ≤ b.toNat := hLow
    have hHigh : b.toNat ≤ 57 := hHigh
    refine ⟨b.toNat - 48, by omega, ?_⟩
    rw [digitByte, Nat.add_sub_cancel' hLow, UInt8.ofNat_toNat]
  · rintro ⟨d, hd, rfl⟩
    rw [toNat_digitByte hd]
    exact ⟨Nat.le_add_right 48 d, Nat.add_le_add_left (Nat.le_of_lt_succ hd) 48⟩

/-- Texts of digit characters only are those that are written with digits. -/
theorem forall_isDigit_iff {text : Bytes} :
    (∀ b ∈ text, isDigit b = true) ↔
      ∃ digits : List Nat, (∀ d ∈ digits, d < 10) ∧ text = digits.map digitByte := by
  constructor
  · intro h
    induction text with
    | nil => exact ⟨[], List.forall_mem_nil _, rfl⟩
    | cons b text ih =>
        rw [List.forall_mem_cons] at h
        obtain ⟨d, hd, rfl⟩ := isDigit_iff.mp h.1
        obtain ⟨digits, hDigits, rfl⟩ := ih h.2
        exact ⟨d :: digits, List.forall_mem_cons.mpr ⟨hd, hDigits⟩, rfl⟩
  · rintro ⟨digits, hDigits, rfl⟩ b hb
    obtain ⟨d, hd, rfl⟩ := List.mem_map.mp hb
    exact isDigit_iff.mpr ⟨d, hDigits d hd, rfl⟩

/-- A further digit adds itself to ten times the number. -/
theorem value_concat (digits : Bytes) (b : UInt8) :
    value (digits ++ [b]) = 10 * value digits + (b.toNat - 48) := by
  rw [value, List.foldl_append, List.foldl_cons, List.foldl_nil, value]

/-- Digit by digit from the highest, or as a sum of powers of ten. -/
theorem value_digitBytes {digits : List Nat} (h : ∀ d ∈ digits, d < 10) :
    value (digits.map digitByte) = Nat.ofDigits 10 digits.reverse := by
  induction digits using List.reverseRecOn with
  | nil => rfl
  | append_singleton digits d ih =>
      rw [List.forall_mem_append, List.forall_mem_singleton] at h
      rw [List.map_append, List.map_singleton, value_concat, ih h.1, toNat_digitByte h.2,
        Nat.add_sub_cancel_left, List.reverse_append, List.reverse_singleton,
        List.singleton_append, Nat.ofDigits_cons, Nat.add_comm]

/-- The numerals that a size is read from are the digit strings of words. -/
theorem spells_iff_writes {text : Bytes} {n : Nat} :
    Spells text n ↔ Writes text n ∧ n ≤ 2 ^ 64 - 1 := by
  rw [Spells, forall_isDigit_iff, Writes]
  constructor
  · rintro ⟨hNonempty, ⟨digits, hDigits, rfl⟩, hValue, hBound⟩
    rw [value_digitBytes hDigits] at hValue
    exact ⟨⟨digits, List.map_eq_nil_iff.not.mp hNonempty, hDigits, rfl, hValue⟩, hBound⟩
  · rintro ⟨⟨digits, hNonempty, hDigits, rfl, hValue⟩, hBound⟩
    rw [← value_digitBytes hDigits] at hValue
    exact ⟨List.map_eq_nil_iff.not.mpr hNonempty, ⟨digits, hDigits, rfl⟩, hValue, hBound⟩

/-- Leading zeros do not count. -/
theorem value_zeros (zeros : Nat) (digits : Bytes) :
    value (List.replicate zeros 48 ++ digits) = value digits := by
  induction zeros with
  | zero => rfl
  | succ zeros ih =>
      rw [List.replicate_succ, List.cons_append, value_eq, valueFrom_cons]
      exact ih

/-- A printed word is a numeral, also behind zeros. -/
theorem spells_zeros_render (zeros : Nat) (word : UInt64) :
    Spells (List.replicate zeros 48 ++ render word.toNat) word.toNat := by
  have hDigits : ∀ b ∈ List.replicate zeros 48 ++ render word.toNat, isDigit b = true := by
    rw [List.forall_mem_append]
    constructor
    · intro b hb
      rw [List.eq_of_mem_replicate hb]
      rfl
    · exact fun b => isDigit_of_mem_render
  exact ⟨List.append_ne_nil_of_right_ne_nil _ (render_ne_nil _), hDigits,
    (value_zeros zeros _).trans (value_render _), Nat.le_pred_of_lt word.toNat_lt⟩

end Decimal

/-- A text is the size `n` exactly if it writes `n` in decimal digits and a word can hold `n`; and a
text that writes no such number is refused with a text of its own that repeats flag and value. The
decimal numeral of every word is read back, with any number of zeros in front. -/
theorem sizes_are_numerals (flag text : Bytes) :
    (∀ n, readSize flag text = .ok n ↔ Decimal.Writes text n ∧ n ≤ 2 ^ 64 - 1) ∧
    ((¬ ∃ n, Decimal.Writes text n ∧ n ≤ 2 ^ 64 - 1) ↔
      ∃ error, readSize flag text = .error error ∧
        error.wording = Bytes.ascii "parse_fabric_args: bad value for " ++ flag
          ++ Bytes.ascii ": '" ++ text ++ Bytes.ascii "'") ∧
    ∀ (zeros : Nat) (word : UInt64),
      readSize flag (List.replicate zeros 48 ++ Decimal.render word.toNat) = .ok word.toNat := by
  refine ⟨fun n => ?_, ?_, fun zeros word => ?_⟩
  · rw [readSize_eq_ok_iff_spells, Decimal.spells_iff_writes]
  · simp only [← Decimal.spells_iff_writes]
    constructor
    · intro hNone
      exact ⟨.badNumber flag text, readSize_of_bad (not_exists.mp hNone), rfl⟩
    · rintro ⟨error, hError, -⟩ ⟨n, hSpells⟩
      rw [readSize_eq_ok_iff_spells.mpr hSpells] at hError
      cases hError
  · exact readSize_eq_ok_iff_spells.mpr (Decimal.spells_zeros_render zeros word)

/-- The largest size, and the first number that is none. -/
example : readSize Flag.workers.name (Bytes.ascii "0018446744073709551615") = .ok (2 ^ 64 - 1) ∧
    readSize Flag.workers.name (Bytes.ascii "18446744073709551616") =
      .error (.badNumber Flag.workers.name (Bytes.ascii "18446744073709551616")) := by
  decide +kernel

end Dataflow
