import Dataflow.Proofs.Execution.Completion
import Dataflow.Proofs.Gathering.Run
import Dataflow.Proofs.WordCount.Census
import Dataflow.Proofs.WordCount.Worker
import Mathlib.Tactic.Choose

/-! The word count counts right. Its workers form a gathering, so in whatever order their turns come
each of them receives all records of the words that it owns. A worker's tally is therefore the part
of the census that it owns, and the tallies of all workers together are the census. -/
namespace Dataflow.WordCount

/-- The worker that owns a word, in every epoch. -/
def owner (workers : Nat) (key : Key) : Nat := Hash.destination (Hash.fnv key.word) workers

/-- What a worker is told. The workers may report to sinks of their own. -/
def contextOf (options : Options) (sinks : Nat → Option Sink) (index : Nat) : Context where
  index
  config := options.config
  sink := sinks index

def allRecords (options : Options) : List (UInt64 × (Bytes × UInt64)) :=
  (List.range options.config.workers).flatMap fun worker =>
    Traffic.records (slotsOf options (UInt32.ofNat worker))

/-- A worker pushes each word of each epoch once, with count one. -/
theorem records_slotsOf (options : Options) (worker : UInt32) :
    Traffic.records (slotsOf options worker) = (List.range options.epochs).flatMap fun epoch =>
      (wordsAt worker options.lines (UInt64.ofNat epoch)).map fun word =>
        (UInt64.ofNat epoch, word, 1) := by
  rw [slotsOf, Traffic.records_concat, Traffic.records, List.flatMap_map, ← List.range_eq_range']
  refine (List.append_nil _).trans (List.flatMap_congr fun epoch _ => ?_)
  simp only [slotOf, Option.toList_some, List.flatMap_singleton, Message.timed, wordsAt,
    List.map_flatMap, countedWords_eq, List.map_map, Function.comp_def]

theorem map_keyOf_allRecords (options : Options) : (allRecords options).map keyOf =
    allKeys options.config.workers options.epochs options.lines := by
  simp only [allRecords, allKeys, keysOf, records_slotsOf, List.map_flatMap, List.map_map,
    Function.comp_def, keyOf]

/-- Every record counts one occurrence. -/
theorem count_of_mem_allRecords {options : Options} {record : UInt64 × (Bytes × UInt64)}
    (h : record ∈ allRecords options) : record.2.2 = 1 := by
  simp only [allRecords, records_slotsOf, List.mem_flatMap, List.mem_map] at h
  obtain ⟨worker, -, epoch, -, word, -, hRecord⟩ := h
  rw [← hRecord]

def start {κ : Type} (options : Options) (sinks : Nat → Option Sink) (index : Nat) :
    Except κ (Program Unit Words WorkerError Tally) :=
  .ok (body options (contextOf options sinks index))

/-- The workers follow a plan by which all records go to the owners of their words. -/
structure Counts {κ : Type} (options : Options)
    (start : Nat → Except κ (Program Unit Words WorkerError Tally))
    (plan : Gathering.Plan Unit Words Tally) : Prop where
  workers : plan.workers = options.config.workers
  starts : plan.Starts start
  result : ∀ worker < plan.workers, (plan.part worker).result = tallyOf
  total : ∀ target, (plan.total target).flatMap Message.timed =
    (allRecords options).filter fun record =>
      owner options.config.workers (keyOf record) = target

/-- The word count is a plan of gathering. -/
theorem exists_counts {κ : Type} (options : Options) (hCapacity : 0 < options.config.capacity)
    (sinks : Nat → Option Sink) :
    ∃ plan, Counts options (start options sinks : Nat → Except κ _) plan := by
  have hMember (worker : Nat) (hWorker : worker < options.config.workers) :
      (contextOf options sinks worker).index < options.config.workers := hWorker
  have hBody (worker : Nat) (hWorker : worker < options.config.workers) :=
    body_eq options (hMember worker hWorker) hCapacity
  choose! part hResult hFollows hLedger using hBody
  refine ⟨{ channel := wordChannel, kind := (), workers := options.config.workers, part }, rfl,
    fun index => ⟨_, rfl, hFollows index⟩, hResult, fun target => ?_⟩
  rw [Gathering.Plan.total, List.flatMap_assoc, allRecords, List.filter_flatMap]
  exact List.flatMap_congr fun worker hWorker => hLedger worker (List.mem_range.mp hWorker) target

/-- The part of the census that a worker owns. -/
def share (options : Options) (worker : Nat) : Tally :=
  Tally.ofKeys ((allKeys options.config.workers options.epochs options.lines).filter
    (owner options.config.workers · = worker))

/-- A worker that has received all records to it counts the words that it owns. -/
theorem tallyOf_received (options : Options) {worker : Nat} {received total : List Words}
    (hReceived : received.Perm total) (hTotal : total.flatMap Message.timed =
      (allRecords options).filter fun record =>
        owner options.config.workers (keyOf record) = worker) :
    tallyOf received = share options worker := by
  have hRecords := hReceived.flatMap_right Message.timed
  rw [hTotal] at hRecords
  rw [tallyOf_eq fun record hRecord =>
    count_of_mem_allRecords (List.mem_filter.mp (hRecords.mem_iff.mp hRecord)).1]
  rw [Tally.ofKeys_perm (hRecords.map keyOf), share, ← map_keyOf_allRecords, List.filter_map]
  rfl

/-- Workers own different words, so no key is in the shares of two. -/
theorem share_apart (options : Options) {worker other : Nat} (h : worker ≠ other)
    {entry entry' : Key × UInt64} (hEntry : entry ∈ share options worker)
    (hEntry' : entry' ∈ share options other) : entry.1 ≠ entry'.1 := by
  have hOwner {worker : Nat} {entry : Key × UInt64} (hEntry : entry ∈ share options worker) :
      owner options.config.workers entry.1 = worker := by
    have hLookup := (Tally.mem_iff_lookup (Tally.ascending_ofKeys _)).mp hEntry
    rw [Tally.lookup_ofKeys_filter] at hLookup
    by_contra hForeign
    rw [if_neg hForeign] at hLookup
    cases hLookup
  intro hSame
  exact h ((hOwner hEntry).symm.trans ((congrArg _ hSame).trans (hOwner hEntry')))

/-- In whatever order the shares of all workers are put together, they are the census. -/
theorem totals_shares (options : Options) {workers : List Nat}
    (hWorkers : workers.Perm (List.range options.config.workers)) {merged : List (Nat × Tally)}
    (hMerged : merged.Perm (workers.map fun worker => (worker, share options worker))) :
    totals merged = census options.config.workers options.epochs options.lines := by
  have hMap : merged = (merged.map Prod.fst).map fun worker => (worker, share options worker) := by
    rw [List.map_map]
    refine (List.map_id merged).symm.trans (List.map_congr_left fun result hResult => ?_)
    obtain ⟨worker, -, hWorker⟩ := List.mem_map.mp (hMerged.mem_iff.mp hResult)
    rw [← hWorker]
    rfl
  have hOrder : (merged.map Prod.fst).Perm (List.range options.config.workers) := by
    refine ((hMerged.map Prod.fst).trans ?_).trans hWorkers
    rw [List.map_map]
    exact .of_eq (List.map_id workers)
  rw [hMap]
  refine totals_owners (owner options.config.workers) fun key hKey => ?_
  rw [hOrder.mem_iff, List.mem_range]
  obtain ⟨worker, hWorker, -⟩ := List.mem_flatMap.mp hKey
  exact Hash.destination_lt _ (Nat.zero_lt_of_lt (List.mem_range.mp hWorker))

/-- When all workers have ended, each has returned its share. -/
theorem Counts.shares {κ : Type} {options : Options}
    {start : Nat → Except κ (Program Unit Words WorkerError Tally)}
    {plan : Gathering.Plan Unit Words Tally} (h : Counts options start plan)
    {execution : Execution Unit Words κ WorkerError Tally}
    (hInvariant : Gathering.Invariant plan execution) (hOver : execution.Over) :
    execution.ended.Perm (List.range options.config.workers) ∧
      (∀ worker < options.config.workers,
        execution.result? worker = some (share options worker)) ∧
      execution.results = execution.ended.map fun worker => (worker, share options worker) := by
  obtain ⟨hEnded, received, hReceived⟩ := hInvariant.result hOver
  rw [h.workers] at hEnded hReceived
  have hShare (worker : Nat) (hWorker : worker < options.config.workers) :
      execution.result? worker = some (share options worker) := by
    obtain ⟨hPerm, hReturned⟩ := hReceived worker hWorker
    rw [hReturned, h.result worker (h.workers ▸ hWorker),
      tallyOf_received options hPerm (h.total worker)]
  refine ⟨hEnded, hShare, ?_⟩
  rw [Execution.results, ← List.filterMap_eq_map]
  refine List.filterMap_congr fun worker hWorker => ?_
  rw [hShare worker (List.mem_range.mp (hEnded.mem_iff.mp hWorker))]
  rfl

/-- The execution of the word count as a whole is the complete execution from its start. -/
theorem execute_eq {κ : Type} (options : Options) {fabric : Fabric Unit Words}
    (hFabric : Fabric.create options.config.workers = .ok fabric) (journal : Journal) :
    ∃ (sinks : Nat → Option Sink) (journal' : Journal),
      let final := Execution.complete (start options sinks : Nat → Except κ _)
        { world := { fabric, journal := journal' }, count := options.config.workers }
      execute options.config (some (body options)) (fun _ => (none : Option κ)) journal =
        { journal := final.world.journal, error := final.error?, results := final.results } := by
  refine ⟨fun index => if options.config.trace then some (.text (UInt32.ofNat index)) else none,
    options.config.apply journal, ?_⟩
  simp only [execute, hFabric]
  rfl

/-- The execution as a whole succeeds, and its totals are the census. -/
theorem execute_totals {κ : Type} (options : Options) {fabric : Fabric Unit Words}
    (hFabric : Fabric.create options.config.workers = .ok fabric)
    (hCapacity : 0 < options.config.capacity) (journal : Journal) :
    let completed :=
      execute options.config (some (body options)) (fun _ => (none : Option κ)) journal
    completed.error = none ∧
      totals completed.results = census options.config.workers options.epochs options.lines := by
  obtain ⟨-, -, hEmpty⟩ := Fabric.create_eq hFabric
  obtain ⟨sinks, journal', hExecute⟩ := execute_eq (κ := κ) options hFabric journal
  obtain ⟨plan, hCounts⟩ := exists_counts (κ := κ) options hCapacity sinks
  have hStart := Gathering.Invariant.start (κ := κ) (ε := WorkerError) plan journal'
  rw [hCounts.workers, ← hEmpty] at hStart
  obtain ⟨hOver, hFinal⟩ := hStart.complete hCounts.starts rfl
  obtain ⟨hEnded, -, hResults⟩ := hCounts.shares hFinal hOver
  rw [hExecute]
  exact ⟨hFinal.error?_eq_none, totals_shares options hEnded (.of_eq hResults)⟩

/-- The program prints the census. -/
theorem run_of_parse {arguments : List Bytes} {options : Options}
    (hParse : Options.parse arguments = .ok options) {fabric : Fabric Unit Words}
    (hFabric : Fabric.create options.config.workers = .ok fabric)
    (hCapacity : 0 < options.config.capacity) :
    (run arguments).exitCode = 0 ∧ (run arguments).stdout =
      render (census options.config.workers options.epochs options.lines) := by
  obtain ⟨hError, hTotals⟩ := execute_totals (κ := Empty) options hFabric hCapacity {}
  simp only [run, hParse, hError, hTotals, and_self]

/-- No worker of the word count ever fails, and whatever turns were taken, further turns bring all
workers to their ends. Then, in whatever order their tallies are put together, the totals are the
census: they have an entry for a word in an epoch if and only if some worker has a line with the
word in that epoch, and the entry is the number of its occurrences over all workers. No two workers
count the same word in the same epoch, so no count takes the place of another. The capacity and the
turns have no part in the census, and the execution of the program comes to it as well. Epochs are
times, so there are no more of them than numbers of 64 bits. -/
theorem counts_in_any_order {κ : Type} (options : Options) {fabric : Fabric Unit Words}
    (hFabric : Fabric.create options.config.workers = .ok fabric)
    (hCapacity : 0 < options.config.capacity) (hEpochs : options.epochs ≤ UInt64.size)
    (sinks : Nat → Option Sink) (journal : Journal) (turns : List Turn) :
    let reached := Execution.after (start options sinks : Nat → Except κ _) turns
      { world := { fabric, journal }, count := options.config.workers }
    (∀ worker error, reached.status? worker ≠ some (.failed error)) ∧
    Execution.Leads (start options sinks) reached Execution.Over ∧
    (reached.Over →
      (∀ merged, merged.Perm reached.results →
        totals merged = census options.config.workers options.epochs options.lines ∧
        ∀ epoch word n, (⟨epoch, word⟩, n) ∈ totals merged ↔
          epoch.toNat < options.epochs ∧
            (∃ worker < options.config.workers,
              ∃ line ∈ linesOf (UInt32.ofNat worker) epoch options.lines, word ∈ wordsOf line) ∧
            n = UInt64.ofNat (occurrences options.config.workers options.lines epoch word)) ∧
      ∀ worker other tally tally', worker ≠ other → reached.result? worker = some tally →
        reached.result? other = some tally' →
          ∀ entry ∈ tally, ∀ entry' ∈ tally', entry.1 ≠ entry'.1) ∧
    let completed :=
      execute options.config (some (body options)) (fun _ => (none : Option κ)) journal
    completed.error = none ∧
      totals completed.results = census options.config.workers options.epochs options.lines := by
  obtain ⟨-, -, hEmpty⟩ := Fabric.create_eq hFabric
  obtain ⟨plan, hCounts⟩ := exists_counts (κ := κ) options hCapacity sinks
  have hReached := (Gathering.Invariant.start plan journal).after hCounts.starts turns
  rw [hCounts.workers, ← hEmpty] at hReached
  refine ⟨hReached.not_failed, ?_, fun hOver => ⟨fun merged hMerged => ?_, ?_⟩, ?_⟩
  · exact Execution.leads_to_over (fun index => ⟨_, rfl⟩) hReached.sound
  · obtain ⟨hEnded, -, hResults⟩ := hCounts.shares hReached hOver
    rw [hResults] at hMerged
    rw [totals_shares options hEnded hMerged]
    exact ⟨rfl, mem_census hEpochs _ _⟩
  · intro worker other tally tally' hApart hTally hTally' entry hEntry entry' hEntry'
    obtain ⟨-, hShare, -⟩ := hCounts.shares hReached hOver
    have hReturned {worker : Nat} {tally : Tally} (hTally : _ = some tally) :=
      (hShare worker (hCounts.workers ▸ hReached.member_of_result hTally)).symm.trans hTally
    rw [← Option.some.inj (hReturned hTally)] at hEntry
    rw [← Option.some.inj (hReturned hTally')] at hEntry'
    exact share_apart options hApart hEntry hEntry'
  · exact execute_totals options hFabric hCapacity journal

/-- Two workers with one line each, and every record in a message of its own. -/
def pair : Options where
  config := { workers := 2, capacity := 1 }
  epochs := 1
  lines := 1

/-- The first worker starts alone, and then the two take turns. -/
def alternating : List Turn :=
  .launcher :: .worker 0 :: .launcher :: (List.replicate 20 [.worker 1, .worker 0]).flatten

theorem counts_in_any_order_alternating :
    let reached : Execution Unit Words Empty WorkerError Tally :=
      Execution.after (start pair fun _ => none) alternating
        { world := { fabric := { workers := 2 } }, count := 2 }
    reached.Over ∧ totals reached.results =
      [(⟨0, Bytes.ascii "batch"⟩, 1), (⟨0, Bytes.ascii "channel"⟩, 1),
        (⟨0, Bytes.ascii "exchange"⟩, 1), (⟨0, Bytes.ascii "operator"⟩, 1),
        (⟨0, Bytes.ascii "progress"⟩, 3), (⟨0, Bytes.ascii "record"⟩, 1),
        (⟨0, Bytes.ascii "stream"⟩, 1), (⟨0, Bytes.ascii "timestamp"⟩, 1)] := by
  intro reached
  have hFabric : Fabric.create pair.config.workers = .ok ({ workers := 2 } : Fabric Unit Words) :=
    rfl
  have hOver : reached.Over := by decide +kernel
  have hCounts := counts_in_any_order (κ := Empty) pair hFabric (by decide) (by decide)
    (fun _ => none) {} alternating
  exact ⟨hOver, ((hCounts.2.2.1 hOver).1 reached.results (.refl _)).1.trans (by decide +kernel)⟩

end Dataflow.WordCount
