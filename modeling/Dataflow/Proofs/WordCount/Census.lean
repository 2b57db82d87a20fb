import Dataflow.Proofs.WordCount.Tally
import Mathlib.Algebra.Order.BigOperators.Group.List
import Mathlib.Data.List.Count

/-! The sequential count. The census counts the words of all lines of all workers one by one, in one
tally. It has no channel and no schedule, and it holds how often each word occurs in each epoch. -/
namespace Dataflow.WordCount

def wordsAt (worker : UInt32) (lines : Nat) (epoch : UInt64) : List Bytes :=
  (linesOf worker epoch lines).flatMap wordsOf

/-- The words of a worker in all epochs, each with its epoch. -/
def keysOf (epochs lines : Nat) (worker : UInt32) : List Key :=
  (List.range epochs).flatMap fun epoch =>
    (wordsAt worker lines (UInt64.ofNat epoch)).map (Key.mk (UInt64.ofNat epoch))

def allKeys (workers epochs lines : Nat) : List Key :=
  (List.range workers).flatMap fun worker => keysOf epochs lines (UInt32.ofNat worker)

def census (workers epochs lines : Nat) : Tally := Tally.ofKeys (allKeys workers epochs lines)

/-- How often a word occurs in an epoch, over all workers. -/
def occurrences (workers lines : Nat) (epoch : UInt64) (word : Bytes) : Nat :=
  ((List.range workers).flatMap fun worker =>
    wordsAt (UInt32.ofNat worker) lines epoch).count word

theorem count_map_mk (epoch : UInt64) (words : List Bytes) (key : Key) :
    (words.map (Key.mk epoch)).count key =
      if epoch = key.epoch then words.count key.word else 0 := by
  obtain ⟨epoch', word⟩ := key
  by_cases hEpoch : epoch = epoch'
  · subst hEpoch
    rw [if_pos rfl]
    exact List.count_map_of_injective words _ (fun _ _ hSame => (Key.mk.inj hSame).2) word
  · rw [if_neg hEpoch, List.count_eq_zero, List.mem_map]
    rintro ⟨_, -, hSame⟩
    exact hEpoch (Key.mk.inj hSame).1

/-- A worker counts a word at its epoch, once for every occurrence. -/
theorem count_keysOf {epochs : Nat} (hEpochs : epochs ≤ UInt64.size) (lines : Nat)
    (worker : UInt32) (key : Key) :
    (keysOf epochs lines worker).count key =
      if key.epoch.toNat < epochs then (wordsAt worker lines key.epoch).count key.word else 0 := by
  induction epochs with
  | zero => rfl
  | succ epochs ih =>
      rw [keysOf, List.range_succ, List.flatMap_append, List.count_append, ← keysOf,
        ih (Nat.le_of_succ_le hEpochs), List.flatMap_singleton, count_map_mk]
      have hLast : UInt64.ofNat epochs = key.epoch ↔ epochs = key.epoch.toNat := by
        rw [← UInt64.toNat_inj, UInt64.toNat_ofNat_of_lt' hEpochs]
      by_cases hKey : epochs = key.epoch.toNat
      · rw [if_pos (hLast.mpr hKey), if_neg (by omega), if_pos (by omega), hLast.mpr hKey,
          Nat.zero_add]
      · rw [if_neg fun hSame => hKey (hLast.mp hSame), Nat.add_zero]
        by_cases hEarlier : key.epoch.toNat < epochs
        · rw [if_pos hEarlier, if_pos (by omega)]
        · rw [if_neg hEarlier, if_neg (by omega)]

/-- A key occurs as often as its word does in its epoch. -/
theorem count_allKeys {epochs : Nat} (hEpochs : epochs ≤ UInt64.size) (workers lines : Nat)
    (key : Key) : (allKeys workers epochs lines).count key =
      if key.epoch.toNat < epochs then occurrences workers lines key.epoch key.word else 0 := by
  rw [allKeys, List.count_flatMap, occurrences, List.count_flatMap]
  simp only [Function.comp_def, count_keysOf hEpochs]
  split
  · rfl
  · exact List.sum_eq_zero (by simp)

/-- A word occurs if some worker has a line with it. -/
theorem occurrences_pos {workers lines : Nat} {epoch : UInt64} {word : Bytes} :
    0 < occurrences workers lines epoch word ↔
      ∃ worker < workers, ∃ line ∈ linesOf (UInt32.ofNat worker) epoch lines,
        word ∈ wordsOf line := by
  simp only [occurrences, List.count_pos_iff, List.mem_flatMap, List.mem_range, wordsAt]

/-- The census has an entry for a word in an epoch if and only if a worker has a line with the word,
and the entry is the number of occurrences as a word. -/
theorem mem_census {epochs : Nat} (hEpochs : epochs ≤ UInt64.size) (workers lines : Nat)
    (epoch : UInt64) (word : Bytes) (n : UInt64) :
    (⟨epoch, word⟩, n) ∈ census workers epochs lines ↔
      epoch.toNat < epochs ∧
        (∃ worker < workers, ∃ line ∈ linesOf (UInt32.ofNat worker) epoch lines,
          word ∈ wordsOf line) ∧
        n = UInt64.ofNat (occurrences workers lines epoch word) := by
  rw [census, Tally.mem_iff_lookup (Tally.ascending_ofKeys _), Tally.lookup_ofKeys,
    count_allKeys hEpochs, ← occurrences_pos]
  by_cases hEpoch : epoch.toNat < epochs
  · simp only [hEpoch, if_true, true_and, Nat.pos_iff_ne_zero]
    by_cases hZero : occurrences workers lines epoch word = 0
    · simp [hZero]
    · simp [hZero, eq_comm]
  · simp [hEpoch]

def keyOf (record : UInt64 × (Bytes × UInt64)) : Key := ⟨record.1, record.2.1⟩

/-- A worker that received single occurrences counts them one by one. -/
theorem tallyOf_eq {messages : List Words}
    (h : ∀ record ∈ messages.flatMap Message.timed, record.2.2 = 1) :
    tallyOf messages = Tally.ofKeys ((messages.flatMap Message.timed).map keyOf) := by
  have hRecords : tallyOf messages = (messages.flatMap Message.timed).foldl
      (fun tally record => Tally.add tally (keyOf record) record.2.2) [] := by
    rw [List.foldl_flatMap, tallyOf]
    refine List.foldl_ext _ _ _ fun tally message _ => ?_
    rw [Message.timed, List.foldl_map]
    rfl
  rw [hRecords, Tally.ofKeys, List.foldl_map]
  refine List.foldl_ext _ _ _ fun tally record hRecord => ?_
  rw [h record hRecord]

end Dataflow.WordCount
