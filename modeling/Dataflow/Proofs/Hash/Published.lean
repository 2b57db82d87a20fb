import Dataflow.Proofs.Hash.Texts
import Mathlib.Algebra.Group.Nat.Defs

/-! Text hashes against the published 64-bit FNV-1a hash. Every byte is folded in as published, but
the hash of the empty text is the published offset basis without its last decimal digit. The two
hashes of a text always differ by two modulo four, whatever the text. They are therefore never the
same, and they lead to different workers wherever the number of workers is a multiple of four. -/
namespace Dataflow.Hash

namespace Published

def basis : Nat := 0xcbf29ce484222325

def prime : Nat := 1099511628211

def fold (h : Nat) (b : UInt8) : Nat := (h ^^^ b.toNat) * prime % 2 ^ 64

def hashFrom (start : Nat) (text : Bytes) : Nat := text.foldl fold start

def hashOf (text : Bytes) : Nat := hashFrom basis text

end Published

open Published

/-- The step on words is the published step on numbers. -/
theorem toNat_fnvStep (h : UInt64) (b : UInt8) : (fnvStep h b).toNat = fold h.toNat b := by
  rw [fnvStep, UInt64.toNat_mul, UInt64.toNat_xor, UInt8.toNat_toUInt64, fold]
  rfl

/-- So is the fold over a text, from any start. -/
theorem toNat_foldl_fnvStep (start : UInt64) (text : Bytes) :
    (text.foldl fnvStep start).toNat = hashFrom start.toNat text := by
  induction text generalizing start with
  | nil => rfl
  | cons b text ih => rw [List.foldl_cons, ih, toNat_fnvStep, hashFrom, hashFrom, List.foldl_cons]

/-- The start is the published one without its last digit. -/
theorem toNat_fnv (text : Bytes) : (fnv text).toNat = hashFrom (basis / 10) text :=
  toNat_foldl_fnvStep fnvStart text

/-- What a byte makes of the lowest two bits depends on the lowest two bits only. -/
theorem fold_mod_four (h : Nat) (b : UInt8) :
    fold h b % 4 = (h % 4 ^^^ b.toNat % 4) * 3 % 4 := by
  have hDvd : 4 ∣ 2 ^ 64 := by decide
  calc fold h b % 4
      = (h ^^^ b.toNat) * prime % 4 := Nat.mod_mod_of_dvd _ hDvd
    _ = (h ^^^ b.toNat) % 2 ^ 2 * 3 % 4 := by rw [Nat.mul_mod]; rfl
    _ = (h % 4 ^^^ b.toNat % 4) * 3 % 4 := by rw [Nat.xor_mod_two_pow]

/-- States that differ by two modulo four go on to do so. -/
theorem fold_two_apart {h k : Nat} (hApart : h % 4 = (k + 2) % 4) (b : UInt8) :
    fold h b % 4 = (fold k b + 2) % 4 := by
  have hLowest : ∀ state < 4, ∀ byte < 4,
      ((state + 2) % 4 ^^^ byte) * 3 % 4 = ((state ^^^ byte) * 3 % 4 + 2) % 4 := by decide
  rw [← Nat.mod_add_mod] at hApart ⊢
  rw [fold_mod_four, fold_mod_four, hApart]
  exact hLowest _ (Nat.mod_lt _ (by decide)) _ (Nat.mod_lt _ (by decide))

/-- Starts that are two apart modulo four stay so through any text. -/
theorem hashFrom_two_apart {h k : Nat} (hApart : h % 4 = (k + 2) % 4) (text : Bytes) :
    hashFrom h text % 4 = (hashFrom k text + 2) % 4 := by
  induction text generalizing h k with
  | nil => exact hApart
  | cons b text ih => exact ih (fold_two_apart hApart b)

theorem fnv_two_apart (text : Bytes) : (fnv text).toNat % 4 = (hashOf text + 2) % 4 := by
  rw [toNat_fnv]
  exact hashFrom_two_apart (by decide) text

/-- Only the published start gives the published hash. -/
theorem toNat_foldl_fnvStep_eq_hashOf_iff (start : UInt64) (text : Bytes) :
    (text.foldl fnvStep start).toNat = hashOf text ↔ start.toNat = basis := by
  have hWord : (UInt64.ofNat basis).toNat = basis := UInt64.toNat_ofNat_of_lt' (by decide)
  have hHash : hashOf text = (text.foldl fnvStep (UInt64.ofNat basis)).toNat := by
    rw [toNat_foldl_fnvStep, hWord, hashOf]
  rw [hHash, UInt64.toNat_inj, (foldl_fnvStep_injective text).eq_iff, ← UInt64.toNat_inj, hWord]

/-- The bytes of a text are folded in as published, from any start. They give the published hash
exactly if they are folded into the published basis; but texts are folded into that basis without
its last decimal digit, and so none has its published hash. With one worker or two, a text still
goes where the published hash would send it. With a multiple of four, it never does. -/
theorem fnv_apart_from_published (start : UInt64) (text : Bytes) (workers : Nat) :
    (text.foldl fnvStep start).toNat = hashFrom start.toNat text ∧
    ((text.foldl fnvStep start).toNat = hashOf text ↔ start.toNat = basis) ∧
    (fnv text).toNat = hashFrom (basis / 10) text ∧
    (fnv text).toNat ≠ hashOf text ∧
    ∀ textHash, key? .str = some textHash →
      (workers ∣ 2 → destination (textHash text) workers = hashOf text % workers) ∧
      (4 ∣ workers → destination (textHash text) workers ≠ hashOf text % workers) := by
  refine ⟨toNat_foldl_fnvStep start text, toNat_foldl_fnvStep_eq_hashOf_iff start text,
    toNat_fnv text, ?_, ?_⟩
  · intro hSame
    have hStart := (toNat_foldl_fnvStep_eq_hashOf_iff fnvStart text).mp hSame
    exact absurd hStart (by decide)
  · intro textHash hHash
    obtain rfl := Option.some.inj hHash
    have hApart := fnv_two_apart text
    constructor
    · intro hTwo
      have hParity : (fnv text).toNat % 2 = hashOf text % 2 := by omega
      rw [destination, ← Nat.mod_mod_of_dvd _ hTwo, hParity, Nat.mod_mod_of_dvd _ hTwo]
    · intro hFour hSame
      have hLow : (fnv text).toNat % workers % 4 = hashOf text % workers % 4 :=
        congrArg (· % 4) hSame
      rw [Nat.mod_mod_of_dvd _ hFour, Nat.mod_mod_of_dvd _ hFour] at hLow
      omega

/-- A text with a well-known hash, and eight workers. -/
theorem fnv_apart_from_published_foobar :
    hashOf (Bytes.ascii "foobar") = 0x85944171f73967e8 ∧
    (fnv (Bytes.ascii "foobar")).toNat ≠ hashOf (Bytes.ascii "foobar") ∧
    destination (fnv (Bytes.ascii "foobar")) 8 ≠ hashOf (Bytes.ascii "foobar") % 8 := by
  have hFoobar := fnv_apart_from_published fnvStart (Bytes.ascii "foobar") 8
  obtain ⟨-, -, -, hHash, hRoute⟩ := hFoobar
  exact ⟨by decide +kernel, hHash, (hRoute fnv rfl).2 (by decide)⟩

end Dataflow.Hash
