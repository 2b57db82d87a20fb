import Mathlib.Data.List.Basic
import Mathlib.Data.List.Induction
import Dataflow.Proofs.FanOut.Bounds
import Dataflow.Proofs.Medium.Audit

/-! The numbers of a sender whose destination may fail. Every message is counted, reported and
offered under its number, whether or not it is then accepted, so the numbers that are missing where
the messages arrive are those of the failures. -/
namespace Dataflow

variable {ε σ T R : Type}

def messageCount (slots : List (Option (Message T R))) : Nat := slots.countP Option.isSome

theorem messageCount_append (first second : List (Option (Message T R))) :
    messageCount (first ++ second) = messageCount first + messageCount second :=
  List.countP_append

namespace Sender

/-- Pushes one slot after the other, whatever becomes of each. -/
def pushAll (medium : Medium ε σ (Message T R)) (dst : Nat) (slots : List (Option (Message T R)))
    (start : Sender × σ) : Sender × σ :=
  slots.foldl (fun reached slot => (push medium dst slot reached).state) start

theorem pushAll_concat (medium : Medium ε σ (Message T R)) (dst : Nat)
    (slots : List (Option (Message T R))) (slot : Option (Message T R)) (start : Sender × σ) :
    pushAll medium dst (slots ++ [slot]) start =
      (push medium dst slot (pushAll medium dst slots start)).state :=
  List.foldl_append

/-- What a push makes of a slot at its destination: a message is reported and then offered under the
number `seq` and the name of the sender, and an empty slot is only offered. -/
def passage (sender : Sender) (dst : Nat) (seq : UInt64) (fault : Option ε) :
    Option (Message T R) → List (Incident ε (Message T R))
  | none => [.offered dst none fault]
  | some message =>
    (sender.sink.toList.map fun sink => .noted sink
      { isSend := true, channel := sender.channel, source := sender.source,
        target := sender.target, seq, length := UInt64.ofNat message.data.length }) ++
    [.offered dst (some { message with seq, source := sender.source }) fault]

/-- A passage offers its message once, stamped. -/
theorem attemptsAt_passage (sender : Sender) (dst : Nat) (seq : UInt64) (fault : Option ε)
    (slot : Option (Message T R)) :
    attemptsAt dst (sender.passage dst seq fault slot) =
      slot.toList.map fun message => ({ message with seq, source := sender.source }, fault) := by
  cases slot with
  | none => rfl
  | some message =>
      have hNoted (sinks : List Sink) (event : Event) :
          attemptsAt dst (sinks.map fun sink =>
            (.noted sink event : Incident ε (Message T R))) = [] := by
        rw [attemptsAt, List.filterMap_map]
        exact List.filterMap_eq_nil_iff.mpr fun sink _ => rfl
      rw [passage, attemptsAt_append, hNoted, attemptsAt_offered, if_pos rfl]
      rfl

/-- One push under audit: the same as without, and exactly its passage is written down. -/
theorem push_audited (medium : Medium ε σ (Message T R)) (dst : Nat) (slot : Option (Message T R))
    (sender : Sender) (state : σ) (incidents : List (Incident ε (Message T R))) :
    (push medium.audited dst slot (sender, state, incidents)).state =
      ((push medium dst slot (sender, state)).state.1,
        (push medium dst slot (sender, state)).state.2,
        incidents ++ sender.passage dst sender.counter
          (push medium dst slot (sender, state)).fault slot) := by
  cases slot with
  | none => rfl
  | some message =>
      obtain ⟨channel, source, target, sink, counter⟩ := sender
      cases sink with
      | none => rfl
      | some sink =>
          have hSplit (noted offered : Incident ε (Message T R)) :
              incidents ++ [noted] ++ [offered] = incidents ++ ([noted] ++ [offered]) :=
            List.append_assoc ..
          exact congrArg (fun written => (_, _, written)) (hSplit _ _)

/-- A push moves nothing of the sender but its counter, and that by the message it was given. -/
theorem push_sender (medium : Medium ε σ (Message T R)) (dst : Nat) (slot : Option (Message T R))
    (reached : Sender × σ) :
    (push medium dst slot reached).state.1 =
      { reached.1 with
        counter := reached.1.counter + UInt64.ofNat (messageCount [slot]) } := by
  obtain ⟨sender, state⟩ := reached
  cases slot with
  | none =>
      have hCounter : sender.counter + UInt64.ofNat 0 = sender.counter := UInt64.add_zero _
      change sender = { sender with counter := sender.counter + UInt64.ofNat 0 }
      rw [hCounter]
  | some message => rfl

variable {sender : Sender}

/-- After any run the counter tells how many messages were pushed, and the rest of the sender is as
it was. -/
theorem pushAll_sender (hFresh : sender.counter = 0) (medium : Medium ε σ (Message T R)) (dst : Nat)
    (slots : List (Option (Message T R))) (state : σ) :
    (pushAll medium dst slots (sender, state)).1 =
      { sender with counter := UInt64.ofNat (messageCount slots) } := by
  induction slots using List.reverseRecOn with
  | nil =>
      obtain ⟨channel, source, target, sink, counter⟩ := sender
      cases hFresh
      rfl
  | append_singleton slots slot ih =>
      rw [pushAll_concat, push_sender, ih, messageCount_append, UInt64.ofNat_add]

/-- A run under audit is the same run, with the passages of its slots written down in order. -/
theorem pushAll_audited (hFresh : sender.counter = 0) (medium : Medium ε σ (Message T R))
    (dst : Nat) (slots : List (Option (Message T R))) (state : σ) :
    pushAll medium.audited dst slots (sender, state, []) =
      ((pushAll medium dst slots (sender, state)).1, (pushAll medium dst slots (sender, state)).2,
        slots.zipIdx.flatMap fun entry =>
          sender.passage dst (UInt64.ofNat (messageCount (slots.take entry.2)))
            (push medium dst entry.1
              (pushAll medium dst (slots.take entry.2) (sender, state))).fault entry.1) := by
  induction slots using List.reverseRecOn with
  | nil => rfl
  | append_singleton slots slot ih =>
      let reached := pushAll medium dst slots (sender, state)
      have hReached : reached.1 = { sender with counter := UInt64.ofNat (messageCount slots) } :=
        pushAll_sender hFresh medium dst slots state
      have hPassage : reached.1.passage dst reached.1.counter (push medium dst slot reached).fault
          slot = sender.passage dst (UInt64.ofNat (messageCount slots))
            (push medium dst slot reached).fault slot := by
        rw [hReached]
        cases slot <;> rfl
      rw [pushAll_concat, pushAll_concat, ih, push_audited, hPassage, List.zipIdx_append,
        List.flatMap_append]
      congr 3
      · -- what was pushed before the last slot is the same for all slots but the last
        apply List.flatMap_congr
        intro entry hEntry
        have hBefore : entry.2 ≤ slots.length := by
          have hLt := (List.mem_zipIdx hEntry).2.1
          omega
        rw [List.take_append_of_le_length hBefore]
      · rw [Nat.zero_add, List.zipIdx_singleton, List.flatMap_singleton,
          List.take_left]

/-- The destination is offered the numbers from zero on, each once until they are used up. -/
theorem offered_seqs (hFresh : sender.counter = 0) (medium : Medium ε σ (Message T R)) (dst : Nat)
    (slots : List (Option (Message T R))) (state : σ) :
    (attemptsAt dst (pushAll medium.audited dst slots (sender, state, [])).2.2).map (·.1.seq) =
      (List.range (messageCount slots)).map UInt64.ofNat := by
  induction slots using List.reverseRecOn with
  | nil => rfl
  | append_singleton slots slot ih =>
      let reached := pushAll medium.audited dst slots (sender, state, [])
      have hCounter : reached.1.counter = UInt64.ofNat (messageCount slots) := by
        rw [pushAll_sender hFresh]
      rw [pushAll_concat, messageCount_append]
      change (attemptsAt dst (push medium.audited dst slot
        (reached.1, reached.2.1, reached.2.2)).state.2.2).map _ = _
      rw [push_audited, attemptsAt_append, List.map_append, ih, attemptsAt_passage, hCounter]
      cases slot with
      | none => exact List.append_nil _
      | some message =>
          change _ = (List.range (messageCount slots + 1)).map UInt64.ofNat
          rw [List.range_succ, List.map_append]
          rfl

end Sender

/-- As long as the numbers do not start again, they are in order. -/
theorem words_sorted {count : Nat} (h : count ≤ UInt64.size) :
    ((List.range count).map UInt64.ofNat).Pairwise (· < ·) := by
  rw [List.pairwise_map]
  apply List.pairwise_lt_range.imp_of_mem
  intro first second hFirst hSecond hLt
  rw [List.mem_range] at hFirst hSecond
  rw [UInt64.lt_iff_toNat_lt, UInt64.toNat_ofNat_of_lt' (by omega),
    UInt64.toNat_ofNat_of_lt' (by omega)]
  exact hLt

/-- The words are those of the numbers below the count. -/
theorem mem_words {count : Nat} (h : count ≤ UInt64.size) (word : UInt64) :
    word ∈ (List.range count).map UInt64.ofNat ↔ word.toNat < count := by
  rw [List.mem_map]
  constructor
  · rintro ⟨n, hRange, rfl⟩
    rw [List.mem_range] at hRange
    rw [UInt64.toNat_ofNat_of_lt' (by omega)]
    exact hRange
  · intro hLt
    exact ⟨word.toNat, List.mem_range.mpr hLt, UInt64.ofNat_toNat⟩

/-- If what was offered comes in order, so does what was accepted, and it lacks exactly what
failed. -/
theorem missing_iff_failed {dst : Nat} {incidents : List (Incident ε M)} {key : M → UInt64}
    (h : ((attemptsAt dst incidents).map fun attempt => key attempt.1).Pairwise (· < ·)) :
    ((acceptedAt dst incidents).map key).Pairwise (· < ·) ∧
      ∀ word, word ∈ (failedAt dst incidents).map key ↔
        word ∈ ((attemptsAt dst incidents).map fun attempt => key attempt.1) ∧
          word ∉ (acceptedAt dst incidents).map key := by
  have hPerm := (attempts_perm dst incidents).map key
  rw [offeredTo, List.map_map, List.map_append] at hPerm
  change ((attemptsAt dst incidents).map fun attempt => key attempt.1).Perm _ at hPerm
  constructor
  · rw [acceptedAt, List.map_map]
    exact h.sublist (List.filter_sublist.map _)
  · have hNodup := hPerm.nodup_iff.mp (h.imp fun hLt => UInt64.ne_of_lt hLt)
    obtain ⟨-, -, hApart⟩ := List.nodup_append.mp hNodup
    intro word
    rw [hPerm.mem_iff, List.mem_append]
    constructor
    · intro hFailed
      exact ⟨Or.inr hFailed, fun hAccepted => hApart word hAccepted word hFailed rfl⟩
    · rintro ⟨hAccepted | hFailed, hMissing⟩
      · exact absurd hAccepted hMissing
      · exact hFailed

/-- Slots are pushed through a sender from its beginning on, and nothing is assumed of the medium,
which may take a message, hand it back or fail. Each message is reported once and then offered under
the number of messages before it, with nothing else changed but its source; an empty slot is offered
and that is all; and the counter is the number of messages so far. Until the numbers start again
those accepted ascend, and exactly the numbers of the failed offers are missing among them. -/
theorem Sender.numbered_whatever_fails (medium : Medium ε σ (Message T R)) (dst : Nat)
    (channel source target : UInt32) (sink : Option Sink) (slots : List (Option (Message T R)))
    (start : σ) :
    let sender : Sender := { channel, source, target, sink }
    let reached := fun earlier => pushAll medium dst earlier (sender, start)
    let audit := pushAll medium.audited dst slots (sender, start, [])
    let incidents := audit.2.2
    reached slots = (audit.1, audit.2.1) ∧
      audit.1 = { sender with counter := UInt64.ofNat (messageCount slots) } ∧
      (incidents = slots.zipIdx.flatMap fun entry =>
        let earlier := slots.take entry.2
        sender.passage dst (UInt64.ofNat (messageCount earlier))
          (push medium dst entry.1 (reached earlier)).fault entry.1) ∧
      (messageCount slots ≤ UInt64.size →
        ((acceptedAt dst incidents).map Message.seq).Pairwise (· < ·) ∧
        ∀ seq, seq ∈ (failedAt dst incidents).map Message.seq ↔
          seq.toNat < messageCount slots ∧ seq ∉ (acceptedAt dst incidents).map Message.seq) := by
  intro sender reached audit incidents
  have hFresh : sender.counter = 0 := rfl
  have hAudit : audit = ((reached slots).1, (reached slots).2, _) :=
    pushAll_audited hFresh medium dst slots start
  have hSender := pushAll_sender hFresh medium.audited dst slots (start, [])
  have hSeqs : (attemptsAt dst incidents).map (·.1.seq) = _ :=
    offered_seqs hFresh medium dst slots start
  refine ⟨?_, hSender, congrArg (·.2.2) hAudit, fun hCount => ?_⟩
  · rw [hAudit]
  · have hSorted := words_sorted hCount
    rw [← hSeqs] at hSorted
    obtain ⟨hAccepted, hMissing⟩ := missing_iff_failed hSorted
    refine ⟨hAccepted, fun seq => ?_⟩
    rw [hMissing, hSeqs, mem_words hCount]

/-- The second offer fails and is handed back, and what is pushed again carries its stamps. -/
theorem Sender.numbered_whatever_fails_again :
    let slots : List (Option (Message Nat UInt64)) :=
      [some { time := 1, data := [4] }, some { time := 1, data := [] },
        some { time := 1, data := [], seq := 1, source := 3 }, none]
    let incidents := (pushAll FanOut.fickle.audited 0 slots
      ({ channel := 11, source := 3, target := 5, sink := some .memory }, 0, [])).2.2
    (acceptedAt 0 incidents).map Message.seq = [0, 2] ∧
      ((1 : UInt64) ∈ (failedAt 0 incidents).map Message.seq) ∧
      incidents.length = 7 := by
  intro slots incidents
  have hAccepted : (acceptedAt 0 incidents).map Message.seq = [0, 2] := by decide +kernel
  obtain ⟨-, -, -, hNumbers⟩ := numbered_whatever_fails FanOut.fickle 0 11 3 5
    (some .memory) slots 0
  have hMissing := (hNumbers (by decide)).2 1
  refine ⟨hAccepted, hMissing.mpr ⟨by decide, ?_⟩, by decide +kernel⟩
  change (1 : UInt64) ∉ (acceptedAt 0 incidents).map Message.seq
  rw [hAccepted]
  decide

end Dataflow
