import Dataflow.Proofs.FanOut.Ledger
import Dataflow.Worker.Channel

/-! The stamps of a sender. What leaves through one sender is numbered from zero without a gap and
carries its source, whatever the messages brought along. Numbers are words: after the largest they
start again. A distributor has one sender for each destination and keeps their numbers apart. -/
namespace Dataflow

variable {ε σ T R : Type}

/-- The messages are all that the sender has stamped, in order. -/
structure Sender.Stamped (sender : Sender) (messages : List (Message T R)) : Prop where
  counter : sender.counter = UInt64.ofNat messages.length
  seqs : messages.map Message.seq = (List.range messages.length).map UInt64.ofNat
  sources : ∀ message ∈ messages, message.source = sender.source

namespace Sender

/-- A sender that starts at zero has stamped nothing. -/
theorem stamped_nil {sender : Sender} (h : sender.counter = 0) :
    sender.Stamped ([] : List (Message T R)) where
  counter := h
  seqs := rfl
  sources _ hMessage := absurd hMessage List.not_mem_nil

/-- The next message gets the next number. -/
theorem Stamped.stamp {sender : Sender} {messages : List (Message T R)}
    (h : sender.Stamped messages) (message : Message T R) :
    ({ sender with counter := sender.counter + 1 } : Sender).Stamped
      (messages ++ [sender.stamp message]) where
  counter := by
    rw [List.length_append, List.length_singleton, UInt64.ofNat_add, ← h.counter]
    rfl
  seqs := by
    rw [List.map_append, h.seqs, List.length_append, List.length_singleton, List.range_succ,
      List.map_append, List.map_singleton, List.map_singleton, ← h.counter]
    rfl
  sources := by
    intro other hOther
    rcases List.mem_append.mp hOther with hOld | hNew
    · exact h.sources other hOld
    · rw [List.mem_singleton.mp hNew]
      rfl

/-- Of messages that are numbered without a gap the first few are so as well. -/
theorem Stamped.seqs_of_prefix {sender : Sender} {first messages : List (Message T R)}
    (h : sender.Stamped messages) (hPrefix : first <+: messages) :
    first.map Message.seq = (List.range first.length).map UInt64.ofNat := by
  obtain ⟨rest, hEq⟩ := hPrefix
  have hSeqs := h.seqs
  rw [← hEq, List.map_append, List.length_append, List.range_add, List.map_append] at hSeqs
  apply List.append_inj_left hSeqs
  rw [List.length_map, List.length_map, List.length_range]

end Sender

/-- Every sender of the distributor has stamped exactly what was sent to its destination. -/
def FanOut.Numbered (fan : FanOut T R) (source : UInt32) (sent : Nat → List (Message T R)) : Prop :=
  ∀ (dst : Nat) (sender : Sender), (fan.lanes.map Lane.sender)[dst]? = some sender →
    sender.source = source ∧ sender.Stamped (sent dst)

namespace FanOut

/-- The numbering goes on from one push to the next. `before` is what was sent earlier. -/
theorem kept_numbered {medium : Medium ε σ (Message T R)} {offers : σ → Nat → List (Message T R)}
    (h : medium.Remembers offers) (source : UInt32) (before : Nat → List (Message T R)) :
    Kept medium fun state =>
      state.1.Numbered source fun dst => before dst ++ offers state.2 dst where
  rebuffer fan state lanes current hSenders hNumbered := by
    intro dst sender hSender
    rw [hSenders] at hSender
    exact hNumbered dst sender hSender
  send fan state target lane message hLane hNumbered := by
    intro offered dst sender hSender
    dsimp only at hSender ⊢
    rw [h.push, ← List.append_assoc]
    rw [List.map_set, List.getElem?_set] at hSender
    by_cases hDst : target = dst
    · subst hDst
      have hSource := hNumbered target lane.sender
        (by rw [List.getElem?_map, hLane, Option.map_some])
      rw [if_pos rfl] at hSender
      split at hSender
      · rw [Option.some.injEq] at hSender
        subst hSender
        rw [if_pos rfl]
        exact ⟨hSource.1, hSource.2.stamp message⟩
      · cases hSender
    · rw [if_neg hDst] at hSender
      rw [if_neg (Ne.symm hDst), List.append_nil]
      exact hNumbered dst sender hSender
  pass fan state target hNumbered := by
    intro dst sender hSender
    dsimp only
    rw [h.offer]
    have hNothing : (if dst = target then (none : Option (Message T R)).toList else []) = [] := by
      split <;> rfl
    rw [hNothing, List.append_nil]
    exact hNumbered dst sender hSender

/-- Every push keeps all numbers in order, whether or not it fails. -/
theorem Numbered.push [DecidableEq T] [Husk R] {medium : Medium ε σ (Message T R)}
    {offers : σ → Nat → List (Message T R)} (h : medium.Remembers offers) {fan : FanOut T R}
    {source : UInt32} {before : Nat → List (Message T R)} {state : σ}
    (hNumbered : fan.Numbered source fun dst => before dst ++ offers state dst)
    (slot : Option (Message T R)) :
    (FanOut.push medium slot (fan, state)).state.1.Numbered source fun dst =>
      before dst ++ offers (FanOut.push medium slot (fan, state)).state.2 dst :=
  (kept_numbered h source before).push slot fan state hNumbered

end FanOut

def Effect.delivered? {M : Type} (channel : UInt32) (target : Nat) : Effect M → Option M
  | .deliver c t message => if c = channel ∧ t = target then some message else none
  | .log _ _ _ | .note _ _ => none

def deliveries {M : Type} (channel : UInt32) (target : Nat) (effects : List (Effect M)) : List M :=
  effects.filterMap (Effect.delivered? channel target)

theorem deliveries_append {M : Type} (channel : UInt32) (target : Nat)
    (first second : List (Effect M)) :
    deliveries channel target (first ++ second) =
      deliveries channel target first ++ deliveries channel target second :=
  List.filterMap_append

/-- The acts that an outbox has gathered tell all that was offered to it. -/
theorem outbox_remembers (channel : UInt32) :
    (outbox (T := T) (R := R) channel).Remembers
      fun acts target => deliveries channel target acts.toList where
  note sink event acts target := by
    change deliveries channel target (acts.push _).toList = _
    rw [Array.toList_push, deliveries_append]
    exact List.append_nil _
  offer dst slot acts target := by
    cases slot with
    | none =>
        change _ = _ ++ if target = dst then [] else []
        rw [ite_self, List.append_nil]
        rfl
    | some message =>
        change deliveries channel target (acts.push _).toList = _
        rw [Array.toList_push, deliveries_append]
        congr 1
        by_cases h : target = dst
        · simp [deliveries, Effect.delivered?, h]
        · simp [deliveries, Effect.delivered?, h, Ne.symm h]

end Dataflow
