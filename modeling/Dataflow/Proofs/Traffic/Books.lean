import Dataflow.Proofs.Traffic.Basic

/-! The books of one worker. They relate the slots that it pushed with what was sent to each mailbox
and what waits for it; a push keeps them up to date. -/
namespace Dataflow

variable {τ T R : Type}

namespace Exchange

def acts [DecidableEq T] [Husk R] (slot : Option (Message T R)) (exchange : Exchange T R) :
    List (Effect (Message T R)) :=
  (FanOut.push (outbox exchange.channel) slot (exchange.fan, #[])).state.2.toList

def pushed [DecidableEq T] [Husk R] (slot : Option (Message T R)) (exchange : Exchange T R) :
    Exchange T R :=
  { exchange with fan := (FanOut.push (outbox exchange.channel) slot (exchange.fan, #[])).state.1 }

end Exchange

namespace Traffic

theorem records_concat (slots : List (Option (Message T R))) (slot : Option (Message T R)) :
    records (slots ++ [slot]) = records slots ++ slot.toList.flatMap Message.timed := by
  rw [records, List.flatMap_append, List.flatMap_singleton, ← records]

/-- The books of one worker: its end of the channel, what it sent to each mailbox, and the slots it
pushed. -/
structure Books (link : Link τ R) (workers worker : Nat) (exchange : Exchange T R)
    (sent : Nat → List (Message T R)) (slots : List (Option (Message T R))) : Prop where
  member : worker < workers
  channel : exchange.channel = link.channel
  hash : exchange.fan.hash = link.hash
  peers : exchange.fan.peers = workers
  settled : exchange.fan.Settled
  numbered : exchange.fan.Numbered (UInt32.ofNat worker) sent
  ledger : ∀ target, (sent target).flatMap Message.timed ++ exchange.fan.waiting target =
    (records slots).filter fun p => Hash.destination (link.hash p.2) workers = target
  /-- After an empty slot nothing waits. -/
  closed : slots.getLast? = some none → ∀ target, exchange.fan.buffer target = []

namespace Books

variable {link : Link τ R} {workers worker : Nat}

/-- A new end of the channel starts with empty books. -/
theorem fresh {sink : Option Sink} {capacity : Nat} {fan : FanOut T R} {receiver : Receiver}
    (h : FanOut.create (Sender.towardsAll link.channel (UInt32.ofNat worker) sink workers) capacity
      link.hash = .ok fan) (hMember : worker < workers) :
    Books link workers worker { channel := link.channel, fan, receiver } (fun _ => []) [] := by
  obtain ⟨hSenders, hHash, hTime, hBuffer⟩ := FanOut.create_ok h
  exact {
    member := hMember
    channel := rfl
    hash := hHash
    peers := by
      have hLength := congrArg List.length hSenders
      rw [List.length_map, Sender.towardsAll, List.length_map, List.length_range] at hLength
      exact hLength
    settled := ⟨fun _ => hBuffer, fun _ => hTime⟩
    numbered := by
      intro dst sender hSender
      rw [hSenders, Sender.towardsAll, List.getElem?_map, Option.map_eq_some_iff] at hSender
      obtain ⟨target, -, hSender⟩ := hSender
      rw [← hSender]
      exact ⟨rfl, Sender.stamped_nil rfl⟩
    ledger := fun target => FanOut.waiting_of_buffer_nil (hBuffer target)
    closed := fun _ => hBuffer }

/-- A push brings its slot, and its acts, into the books. -/
theorem push [DecidableEq T] [Husk R] {exchange : Exchange T R} {sent : Nat → List (Message T R)}
    {slots : List (Option (Message T R))} (h : Books link workers worker exchange sent slots)
    (slot : Option (Message T R)) :
    Books link workers worker (exchange.pushed slot)
      (fun target => sent target ++ deliveries link.channel target (exchange.acts slot))
      (slots ++ [slot]) := by
  have hRemembers := outbox_remembers (T := T) (R := R) exchange.channel
  have hFault : (FanOut.push (outbox exchange.channel) slot (exchange.fan, #[])).fault = none :=
    Attempt.fault_eq_none _
  have hPeers : 0 < exchange.fan.peers := by
    rw [h.peers]
    exact Nat.zero_lt_of_lt h.member
  obtain ⟨hHash, hCount⟩ := FanOut.push_shape (outbox exchange.channel) slot exchange.fan #[]
  exact {
    member := h.member
    channel := h.channel
    hash := hHash.trans h.hash
    peers := hCount.trans h.peers
    settled := FanOut.push_settled h.settled slot #[]
    numbered := by
      -- The acts of a push start from nothing, so all that was sent before stands in front.
      have hBefore : exchange.fan.Numbered (UInt32.ofNat worker) fun target =>
          sent target ++ deliveries exchange.channel target
            (#[] : Array (Effect (Message T R))).toList := by
        intro dst sender hSender
        change _ ∧ sender.Stamped (sent dst ++ [])
        rw [List.append_nil]
        exact h.numbered dst sender hSender
      rw [← h.channel]
      exact hBefore.push hRemembers slot
    ledger := by
      intro target
      have hPush := FanOut.push_ledger hRemembers h.settled hPeers slot hFault target
      have hRoute (record : R) :
          exchange.fan.route record = Hash.destination (link.hash record) workers := by
        rw [FanOut.route, h.hash, h.peers]
      simp only [hRoute] at hPush
      rw [records_concat, List.filter_append, ← h.ledger target, List.flatMap_append,
        List.append_assoc, List.append_assoc, ← h.channel]
      congr 1
    closed := by
      intro hLast target
      rw [List.getLast?_concat, Option.some.injEq] at hLast
      subst hLast
      exact FanOut.push_none_buffer h.settled hFault target }

end Books

end Traffic

end Dataflow
