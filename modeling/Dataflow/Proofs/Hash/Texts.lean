import Dataflow.RecordHash
import Dataflow.Proofs.Hash.Words
import Mathlib.Logic.ExistsUnique

/-! Texts as keys. Each byte permutes the states of the hash, and different bytes take a state to
different states. A difference in one byte is therefore never lost, whatever follows it. -/
namespace Dataflow.Hash

/-- The prime is odd, so it has an inverse among the words. -/
theorem fnvPrime_unit : fnvPrime * 0xce965057aff6957b = 1 := by decide

/-- A step loses nothing of the hash before it. -/
theorem fnvStep_left_injective (b : UInt8) : Function.Injective (fnvStep · b) := by
  intro h k hEq
  exact (UInt64.xor_left_inj _).mp (mul_unit_injective fnvPrime_unit hEq)

/-- A step loses nothing of its byte. -/
theorem fnvStep_right_injective (h : UInt64) : Function.Injective (fnvStep h) := by
  intro a b hEq
  have hXor : h ^^^ a.toUInt64 = h ^^^ b.toUInt64 := mul_unit_injective fnvPrime_unit hEq
  exact UInt8.toUInt64_inj.mp ((UInt64.xor_right_inj h).mp hXor)

/-- No text loses anything of the hash before it. -/
theorem foldl_fnvStep_injective (bytes : Bytes) :
    Function.Injective fun h => bytes.foldl fnvStep h := by
  induction bytes with
  | nil => exact Function.injective_id
  | cons b rest ih => exact ih.comp (fnvStep_left_injective b)

/-- A common suffix may be cancelled. -/
theorem fnv_append_right_inj (x y suffix : Bytes) :
    fnv (x ++ suffix) = fnv (y ++ suffix) ↔ fnv x = fnv y := by
  rw [fnv_append, fnv_append]
  exact (foldl_fnvStep_injective suffix).eq_iff

/-- Texts that differ in one byte have different hashes. -/
theorem fnv_byte_inj (stem suffix : Bytes) (a b : UInt8) :
    fnv (stem ++ [a] ++ suffix) = fnv (stem ++ [b] ++ suffix) ↔ a = b := by
  rw [fnv_append_right_inj, fnv_append, fnv_append]
  exact (fnvStep_right_injective (fnv stem)).eq_iff

/-- Texts of one length that differ at one place are cut there into a common beginning, two
different bytes, and a common end. -/
theorem exists_eq_append_of_existsUnique_ne {u v : Bytes} (hLength : u.length = v.length)
    (hOne : ∃! i : Nat, u[i]? ≠ v[i]?) :
    ∃ stem a b suffix, a ≠ b ∧ u = stem ++ [a] ++ suffix ∧ v = stem ++ [b] ++ suffix := by
  obtain ⟨i, hDiffer, hOnly⟩ := hOne
  have hSame (j : Nat) (hj : j ≠ i) : u[j]? = v[j]? := by
    by_contra h
    exact hj (hOnly j h)
  have hu : i < u.length := by
    by_contra h
    exact hDiffer (by rw [List.getElem?_eq_none (by omega), List.getElem?_eq_none (by omega)])
  have hv : i < v.length := hLength ▸ hu
  have hStem : u.take i = v.take i := by
    apply List.ext_getElem?
    intro j
    rw [List.getElem?_take, List.getElem?_take]
    split
    · exact hSame j (by omega)
    · rfl
  have hSuffix : u.drop (i + 1) = v.drop (i + 1) := by
    apply List.ext_getElem?
    intro j
    rw [List.getElem?_drop, List.getElem?_drop]
    exact hSame _ (by omega)
  refine ⟨u.take i, u[i], v[i], u.drop (i + 1), ?_, ?_, ?_⟩
  · intro hEq
    exact hDiffer (by rw [List.getElem?_eq_getElem hu, List.getElem?_eq_getElem hv, hEq])
  · rw [List.append_assoc, List.singleton_append, List.getElem_cons_drop, List.take_append_drop]
  · rw [hStem, hSuffix, List.append_assoc, List.singleton_append, List.getElem_cons_drop,
      List.take_append_drop]

/-- What stands in front of a common end decides whether texts share a hash, and one byte changed
in place always changes it. The last part is about texts as keys. -/
theorem near_texts_apart :
    (∀ x y suffix : Bytes, fnv (x ++ suffix) = fnv (y ++ suffix) ↔ fnv x = fnv y) ∧
    (∀ (stem suffix : Bytes) (a b : UInt8), a ≠ b →
      fnv (stem ++ [a] ++ suffix) ≠ fnv (stem ++ [b] ++ suffix)) ∧
    ∀ hash, key? .str = some hash → ∀ u v : Bytes, u.length = v.length →
      (∃! i : Nat, u[i]? ≠ v[i]?) → hash u ≠ hash v := by
  refine ⟨fnv_append_right_inj, ?_, ?_⟩
  · intro stem suffix a b hNe hEq
    exact hNe ((fnv_byte_inj stem suffix a b).mp hEq)
  · intro hash hHash u v hLength hOne
    obtain rfl := Option.some.inj hHash
    obtain ⟨stem, a, b, suffix, hNe, rfl, rfl⟩ := exists_eq_append_of_existsUnique_ne hLength hOne
    exact fun hEq => hNe ((fnv_byte_inj stem suffix a b).mp hEq)

/-- Bytes on both sides of `0x80`, in the middle of a text. -/
theorem near_texts_apart_high :
    fnv [0x66, 0x80, 0x67] ≠ fnv [0x66, 0x7f, 0x67] := by
  have hOne : ∃! i : Nat, ([0x66, 0x80, 0x67] : Bytes)[i]? ≠ ([0x66, 0x7f, 0x67] : Bytes)[i]? := by
    refine ⟨1, by decide, ?_⟩
    intro i hDiffer
    match i with
    | 0 => exact absurd rfl hDiffer
    | 1 => rfl
    | 2 => exact absurd rfl hDiffer
    | n + 3 => exact absurd rfl hDiffer
  exact near_texts_apart.2.2 fnv rfl _ _ rfl hOne

end Dataflow.Hash
