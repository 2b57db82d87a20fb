import Dataflow.Proofs.Network.Basic

/-! What one edge writes into its history. At an edge between all workers a message is announced and
then put into a mailbox, and one that is taken out is announced after that. At a private edge the
announcements are all there is to see. -/
namespace Dataflow

variable {T R : Type}

namespace Exchange

/-- The effects of one worker's end, and the messages that it has taken. -/
inductive Chronicle (workers : Nat) (channel : UInt32) (worker : Nat) :
    List (Effect (Message T R)) → List (Message T R) → Prop where
  | nil : Chronicle workers channel worker [] []
  | log {effects : List (Effect (Message T R))} {taken : List (Message T R)}
      (h : Chronicle workers channel worker effects taken) (level : Level) (text : Bytes) :
      Chronicle workers channel worker (effects ++ [.log level channel text]) taken
  | post {effects : List (Effect (Message T R))} {taken : List (Message T R)}
      (h : Chronicle workers channel worker effects taken) {message : Message T R}
      (hSource : message.source = UInt32.ofNat worker) {target : Nat} (hTarget : target < workers) :
      Chronicle workers channel worker
        (effects ++ [.note .memory (message.event true channel (UInt32.ofNat target)),
          .deliver channel target message]) taken
  | receipt {effects : List (Effect (Message T R))} {taken : List (Message T R)}
      (h : Chronicle workers channel worker effects taken) (message : Message T R) :
      Chronicle workers channel worker
        (effects ++ [.note .memory (message.event false channel (UInt32.ofNat worker))])
        (taken ++ [message])

namespace Chronicle

variable {workers : Nat} {channel : UInt32} {worker : Nat}
  {effects : List (Effect (Message T R))} {taken : List (Message T R)}

/-- Messages are delivered on the channel, under the number of the worker. -/
theorem of_deliver_mem (h : Chronicle workers channel worker effects taken) {c : UInt32}
    {target : Nat} {message : Message T R} (hMem : .deliver c target message ∈ effects) :
    c = channel ∧ target < workers ∧ message.source = UInt32.ofNat worker := by
  induction h with
  | nil => exact absurd hMem List.not_mem_nil
  | log h level text ih =>
      rcases List.mem_append.mp hMem with hOld | hNew
      · exact ih hOld
      · cases List.mem_singleton.mp hNew
  | post h hSource hTarget ih =>
      rcases List.mem_append.mp hMem with hOld | hNew
      · exact ih hOld
      · rcases List.mem_cons.mp hNew with hNote | hDeliver
        · cases hNote
        · cases List.mem_singleton.mp hDeliver
          exact ⟨rfl, hTarget, hSource⟩
  | receipt h message ih =>
      rcases List.mem_append.mp hMem with hOld | hNew
      · exact ih hOld
      · cases List.mem_singleton.mp hNew

/-- Each event is of the channel, and either of a message from the worker or of one to it. -/
theorem of_event_mem (h : Chronicle workers channel worker effects taken) {event : Event}
    (hMem : event ∈ remembered effects) :
    event.channel = channel ∧ (event.isSend = true ∧ event.source = UInt32.ofNat worker ∨
      event.isSend = false ∧ event.target = UInt32.ofNat worker) := by
  induction h with
  | nil => exact absurd hMem List.not_mem_nil
  | log h level text ih =>
      rw [remembered_append] at hMem
      rcases List.mem_append.mp hMem with hOld | hNew
      · exact ih hOld
      · exact absurd hNew List.not_mem_nil
  | post h hSource hTarget ih =>
      rw [remembered_append] at hMem
      rcases List.mem_append.mp hMem with hOld | hNew
      · exact ih hOld
      · rw [List.mem_singleton.mp hNew]
        exact ⟨rfl, Or.inl ⟨rfl, hSource⟩⟩
  | receipt h message ih =>
      rw [remembered_append] at hMem
      rcases List.mem_append.mp hMem with hOld | hNew
      · exact ih hOld
      · rw [List.mem_singleton.mp hNew]
        exact ⟨rfl, Or.inr ⟨rfl, rfl⟩⟩

/-- The received messages are announced in the order in which they were taken. -/
theorem receipts (h : Chronicle workers channel worker effects taken) (source : UInt32) :
    marks false channel source (UInt32.ofNat worker) (remembered effects) =
      (taken.filter fun message => message.source = source).map Message.mark := by
  induction h with
  | nil => rfl
  | log h level text ih =>
      rw [remembered_append, marks_append, ih]
      exact List.append_nil _
  | post h hSource hTarget ih =>
      rw [remembered_append, marks_append, ih]
      exact List.append_nil _
  | receipt h message ih =>
      rw [remembered_append, marks_append, ih, List.filter_append, List.map_append]
      congr 1
      by_cases hMark : message.source = source
      · rw [List.filter_cons_of_pos (by simpa using hMark)]
        exact marks_event hMark
      · rw [List.filter_cons_of_neg (by simpa using hMark)]
        exact marks_of_not_crosses fun hCrosses => hMark hCrosses.2.2.1

variable {target : Nat}

theorem post_marks (hWorkers : workers < UInt32.size) {message : Message T R}
    (hSource : message.source = UInt32.ofNat worker) {dst : Nat} (hDst : dst < workers)
    (hTarget : target < workers) :
    (deliveries channel target [Effect.note .memory
        (message.event true channel (UInt32.ofNat dst)), .deliver channel dst message]).map
          Message.mark =
      marks true channel (UInt32.ofNat worker) (UInt32.ofNat target)
        [message.event true channel (UInt32.ofNat dst)] := by
  by_cases hSame : dst = target
  · subst hSame
    have hDelivered : Effect.delivered? channel dst (.deliver channel dst message) =
        some message := if_pos ⟨rfl, rfl⟩
    rw [marks_event hSource, deliveries, List.filterMap_cons_none rfl,
      List.filterMap_cons_some hDelivered]
    rfl
  · have hWords : UInt32.ofNat dst ≠ UInt32.ofNat target := by
      intro hEq
      exact hSame (eq_of_word_eq (Nat.lt_trans hDst hWorkers) (Nat.lt_trans hTarget hWorkers) hEq)
    have hDelivered : Effect.delivered? channel target (.deliver channel dst message) = none :=
      if_neg fun hBoth => hSame hBoth.2
    rw [marks_of_not_crosses fun hCrosses => hWords hCrosses.2.2.2, deliveries,
      List.filterMap_cons_none rfl, List.filterMap_cons_none hDelivered]
    rfl

/-- Exactly what is delivered has been announced. -/
theorem delivered (h : Chronicle workers channel worker effects taken)
    (hWorkers : workers < UInt32.size) (hTarget : target < workers) :
    (deliveries channel target effects).map Message.mark =
      marks true channel (UInt32.ofNat worker) (UInt32.ofNat target) (remembered effects) := by
  induction h with
  | nil => rfl
  | log h level text ih =>
      rw [remembered_append, marks_append, deliveries_append, List.map_append, ih]
      rfl
  | post h hSource hDst ih =>
      rw [remembered_append, marks_append, deliveries_append, List.map_append, ih,
        post_marks hWorkers hSource hDst hTarget]
      rfl
  | receipt h message ih =>
      rw [remembered_append, marks_append, deliveries_append, List.map_append, ih]
      congr 1

/-- Whatever is to be delivered has been reported as sent before. -/
theorem heralded_all (h : Chronicle workers channel worker effects taken)
    (hWorkers : workers < UInt32.size) (hTarget : target < workers) :
    (deliveries channel target effects).map Message.mark <+:
      marks true channel (UInt32.ofNat worker) (UInt32.ofNat target) (remembered effects) :=
  ⟨[], (List.append_nil _).trans (h.delivered hWorkers hTarget)⟩

/-- At any time what has been delivered had been announced. -/
theorem heralded (h : Chronicle workers channel worker effects taken)
    (hWorkers : workers < UInt32.size) (hTarget : target < workers)
    {part : List (Effect (Message T R))} (hPart : part <+: effects) :
    (deliveries channel target part).map Message.mark <+:
      marks true channel (UInt32.ofNat worker) (UInt32.ofNat target) (remembered part) := by
  induction h with
  | nil =>
      rw [List.prefix_nil.mp hPart]
      exact List.prefix_rfl
  | log h level text ih =>
      rcases List.prefix_concat_iff.mp hPart with hAll | hOld
      · rw [hAll]
        exact (h.log level text).heralded_all hWorkers hTarget
      · exact ih hOld
  | @post before taken h message hSource dst hDst ih =>
      rw [List.append_cons] at hPart
      rcases List.prefix_concat_iff.mp hPart with hAll | hRest
      · rw [hAll, ← List.append_cons]
        exact (h.post hSource hDst).heralded_all hWorkers hTarget
      · rcases List.prefix_concat_iff.mp hRest with hNoted | hOld
        · -- Between the announcement and the delivery one more is announced than delivered.
          rw [hNoted, remembered_append, marks_append, deliveries_append, List.map_append,
            h.delivered hWorkers hTarget]
          exact (List.prefix_append_right_inj _).mpr (List.nil_prefix)
        · exact ih hOld
  | receipt h message ih =>
      rcases List.prefix_concat_iff.mp hPart with hAll | hOld
      · rw [hAll]
        exact (h.receipt message).heralded_all hWorkers hTarget
      · exact ih hOld

end Chronicle

end Exchange

/-- The sender towards each worker knows its place and reports to memory. -/
def FanOut.Addressed (workers : Nat) (channel : UInt32) (worker : Nat) (fan : FanOut T R) : Prop :=
  ∀ dst sender, (fan.lanes.map Lane.sender)[dst]? = some sender → dst < workers ∧
    sender.channel = channel ∧ sender.source = UInt32.ofNat worker ∧
      sender.target = UInt32.ofNat dst ∧ sender.sink = some .memory

/-- Both ends know their place and report to memory. -/
structure Exchange.Addressed (workers : Nat) (channel : UInt32) (worker : Nat)
    (exchange : Exchange T R) : Prop where
  fan : exchange.fan.Addressed workers channel worker
  outlet : exchange.channel = channel
  receiver : exchange.receiver = ⟨channel, UInt32.ofNat worker, some .memory⟩

section Push

variable {workers : Nat} {channel : UInt32} {worker : Nat}

/-- Senders only ever post, and they stay where they are. -/
theorem FanOut.kept_chronicle (before : List (Effect (Message T R)))
    (taken : List (Message T R)) :
    Kept (outbox channel) fun state => state.1.Addressed workers channel worker ∧
      Exchange.Chronicle workers channel worker (before ++ state.2.toList) taken where
  rebuffer fan state lanes current hSenders h := by
    refine ⟨?_, h.2⟩
    rw [Addressed, hSenders]
    exact h.1
  send fan acts dst lane message hLane h := by
    obtain ⟨hAddressed, hChronicle⟩ := h
    have hSender : (fan.lanes.map Lane.sender)[dst]? = some lane.sender := by
      rw [List.getElem?_map, hLane, Option.map_some]
    obtain ⟨hDst, hChannel, hSource, hTarget, hSink⟩ := hAddressed dst lane.sender hSender
    intro offered
    constructor
    · intro i sender hFound
      dsimp only at hFound
      rw [List.map_set, List.getElem?_set] at hFound
      by_cases hDst : dst = i
      · subst hDst
        rw [if_pos rfl] at hFound
        split at hFound
        · cases hFound
          exact hAddressed dst lane.sender hSender
        · cases hFound
      · rw [if_neg hDst] at hFound
        exact hAddressed i sender hFound
    · have hEvent : lane.sender.event message =
          (lane.sender.stamp message).event true channel (UInt32.ofNat dst) := by
        rw [Sender.event, hChannel, hTarget]
        rfl
      have hActs : offered.state.2 = (acts.push (.note .memory (lane.sender.event message))).push
          (.deliver channel dst (lane.sender.stamp message)) := by
        simp only [offered, Sender.push, hSink]
        rfl
      have hStamped : (lane.sender.stamp message).source = UInt32.ofNat worker := hSource
      have hPosted := hChronicle.post hStamped hDst
      rw [hActs, hEvent, Array.toList_push, Array.toList_push, List.append_assoc,
        ← List.append_assoc]
      exact hPosted
  pass fan acts dst h := h

namespace Exchange

variable {effects : List (Effect (Message T R))} {taken : List (Message T R)}
  {exchange : Exchange T R}

/-- A push posts messages and nothing else. -/
theorem Addressed.push [DecidableEq T] [Husk R] (h : exchange.Addressed workers channel worker)
    (hChronicle : Chronicle workers channel worker effects taken)
    (slot : Option (Message T R)) :
    (exchange.pushed slot).Addressed workers channel worker ∧
      Chronicle workers channel worker (effects ++ exchange.acts slot) taken := by
  have hStart : Chronicle workers channel worker
      (effects ++ (#[] : Array (Effect (Message T R))).toList) taken := by
    rw [List.append_nil]
    exact hChronicle
  obtain ⟨hFan, hPushed⟩ := (FanOut.kept_chronicle effects taken).push slot exchange.fan #[]
    ⟨h.fan, hStart⟩
  rw [← h.outlet] at hFan hPushed
  have hOutlet : (exchange.pushed slot).channel = exchange.channel := rfl
  refine ⟨⟨?_, hOutlet.trans h.outlet, h.receiver⟩, ?_⟩
  · rw [← h.outlet]
    exact hFan
  · rw [← h.outlet]
    exact hPushed

/-- A message that is taken is reported. -/
theorem Addressed.reports (h : exchange.Addressed workers channel worker)
    (hChronicle : Chronicle workers channel worker effects taken)
    (message : Option (Message T R)) :
    Chronicle workers channel worker (effects ++ Pipe.reports exchange.receiver message.toList)
      (taken ++ message.toList) := by
  rw [h.receiver]
  cases message with
  | none =>
      change Chronicle _ _ _ (effects ++ []) (taken ++ [])
      rw [List.append_nil, List.append_nil]
      exact hChronicle
  | some message => exact hChronicle.receipt message

/-- A new end is where it was asked for. -/
theorem addressed_of_create {hash : R → UInt64} {capacity : Nat} {fan : FanOut T R}
    (h : FanOut.create (Sender.towardsAll channel (UInt32.ofNat worker) (some .memory) workers)
      capacity hash = .ok fan) :
    Addressed workers channel worker
      { channel, fan, receiver := ⟨channel, UInt32.ofNat worker, some .memory⟩ } where
  outlet := rfl
  receiver := rfl
  fan := by
    intro dst sender hSender
    rw [(FanOut.create_ok h).1, Sender.towardsAll, List.getElem?_map, Option.map_eq_some_iff]
      at hSender
    obtain ⟨target, hTarget, hSender⟩ := hSender
    obtain ⟨hDst, hTarget⟩ := List.getElem?_eq_some_iff.mp hTarget
    rw [List.getElem_range] at hTarget
    rw [List.length_range] at hDst
    rw [← hSender, ← hTarget]
    exact ⟨hDst, rfl, rfl, rfl, rfl⟩

end Exchange

end Push

namespace Pipe

/-- The effects of a private edge, the slots pushed into it, and the messages that wait. -/
inductive Chronicle (channel worker : UInt32) : List (Effect (Message T R)) →
    List (Option (Message T R)) → List (Message T R) → Prop where
  | nil : Chronicle channel worker [] [] []
  | log {effects : List (Effect (Message T R))} {slots : List (Option (Message T R))}
      {waiting : List (Message T R)} (h : Chronicle channel worker effects slots waiting)
      (level : Level) (text : Bytes) :
      Chronicle channel worker (effects ++ [.log level channel text]) slots waiting
  | flush {effects : List (Effect (Message T R))} {slots : List (Option (Message T R))}
      {waiting : List (Message T R)} (h : Chronicle channel worker effects slots waiting) :
      Chronicle channel worker effects (slots ++ [none]) waiting
  | push {effects : List (Effect (Message T R))} {slots : List (Option (Message T R))}
      {waiting : List (Message T R)} (h : Chronicle channel worker effects slots waiting)
      (message : Message T R) (seq : UInt64) :
      Chronicle channel worker
        (effects ++ [.note .memory
          (({ message with seq, source := worker } : Message T R).event true channel worker)])
        (slots ++ [some message]) (waiting ++ [{ message with seq, source := worker }])
  | pull {effects : List (Effect (Message T R))} {slots : List (Option (Message T R))}
      {message : Message T R} {waiting : List (Message T R)}
      (h : Chronicle channel worker effects slots (message :: waiting)) :
      Chronicle channel worker
        (effects ++ [.note .memory (message.event false channel worker)]) slots waiting

namespace Chronicle

variable {channel worker : UInt32} {effects : List (Effect (Message T R))}
  {slots : List (Option (Message T R))} {waiting : List (Message T R)}

/-- What waits comes from the worker. -/
theorem source_of_mem (h : Chronicle channel worker effects slots waiting) :
    ∀ message ∈ waiting, message.source = worker := by
  induction h with
  | nil => exact fun message hMem => absurd hMem List.not_mem_nil
  | log h level text ih => exact ih
  | flush h ih => exact ih
  | push h message seq ih =>
      intro other hMem
      rcases List.mem_append.mp hMem with hOld | hNew
      · exact ih other hOld
      · rw [List.mem_singleton.mp hNew]
  | pull h ih => exact fun other hMem => ih other (List.mem_cons_of_mem _ hMem)

/-- A private edge delivers nothing to mailboxes. -/
theorem not_deliver_mem (h : Chronicle channel worker effects slots waiting) (c : UInt32)
    (target : Nat) (message : Message T R) : .deliver c target message ∉ effects := by
  induction h with
  | nil => exact List.not_mem_nil
  | log h level text ih =>
      intro hMem
      rcases List.mem_append.mp hMem with hOld | hNew
      · exact ih hOld
      · cases List.mem_singleton.mp hNew
  | flush h ih => exact ih
  | push h message seq ih =>
      intro hMem
      rcases List.mem_append.mp hMem with hOld | hNew
      · exact ih hOld
      · cases List.mem_singleton.mp hNew
  | pull h ih =>
      intro hMem
      rcases List.mem_append.mp hMem with hOld | hNew
      · exact ih hOld
      · cases List.mem_singleton.mp hNew

/-- Each event is of the channel, from the worker to itself. -/
theorem of_event_mem (h : Chronicle channel worker effects slots waiting) {event : Event}
    (hMem : event ∈ remembered effects) :
    event.channel = channel ∧ event.source = worker ∧ event.target = worker := by
  induction h with
  | nil => exact absurd hMem List.not_mem_nil
  | log h level text ih =>
      rw [remembered_append] at hMem
      rcases List.mem_append.mp hMem with hOld | hNew
      · exact ih hOld
      · exact absurd hNew List.not_mem_nil
  | flush h ih => exact ih hMem
  | push h message seq ih =>
      rw [remembered_append] at hMem
      rcases List.mem_append.mp hMem with hOld | hNew
      · exact ih hOld
      · rw [List.mem_singleton.mp hNew]
        exact ⟨rfl, rfl, rfl⟩
  | pull h ih =>
      rw [remembered_append] at hMem
      rcases List.mem_append.mp hMem with hOld | hNew
      · exact ih hOld
      · rw [List.mem_singleton.mp hNew]
        exact ⟨rfl, h.source_of_mem _ List.mem_cons_self, rfl⟩

/-- What has been sent is what has been received and then what waits. -/
theorem sent (h : Chronicle channel worker effects slots waiting) :
    marks true channel worker worker (remembered effects) =
      marks false channel worker worker (remembered effects) ++ waiting.map Message.mark := by
  induction h with
  | nil => rfl
  | log h level text ih =>
      rw [remembered_append, marks_append, ih, marks_append, List.append_assoc, List.append_assoc]
      exact congrArg _ (List.append_nil _)
  | flush h ih => exact ih
  | push h message seq ih =>
      let stamped : Message T R := { message with seq, source := worker }
      have hSent : marks true channel worker worker [stamped.event true channel worker] =
          [stamped.mark] := marks_event rfl
      have hReceived : marks false channel worker worker [stamped.event true channel worker] =
          [] := rfl
      rw [remembered_append, marks_append, ih, marks_append, List.map_append, List.append_assoc]
      change _ ++ (_ ++ marks true channel worker worker [stamped.event true channel worker]) =
        (_ ++ marks false channel worker worker [stamped.event true channel worker]) ++ _
      rw [hSent, hReceived, List.append_nil]
      rfl
  | pull h ih =>
      have hSource := h.source_of_mem _ List.mem_cons_self
      rw [remembered_append, marks_append, ih, marks_append, List.map_cons, List.append_assoc,
        List.append_assoc]
      congr 1
      change _ ++ [] = marks false channel worker worker [_] ++ _
      rw [marks_event hSource, List.append_nil]
      rfl

/-- Whatever is reported as received has been reported as sent. -/
theorem received_all (h : Chronicle channel worker effects slots waiting) :
    marks false channel worker worker (remembered effects) <+:
      marks true channel worker worker (remembered effects) := by
  rw [h.sent]
  exact List.prefix_append _ _

/-- At any time what has been received had been sent. -/
theorem received (h : Chronicle channel worker effects slots waiting)
    {part : List (Effect (Message T R))} (hPart : part <+: effects) :
    marks false channel worker worker (remembered part) <+:
      marks true channel worker worker (remembered part) := by
  induction h with
  | nil =>
      rw [List.prefix_nil.mp hPart]
      exact List.prefix_rfl
  | log h level text ih =>
      rcases List.prefix_concat_iff.mp hPart with hAll | hOld
      · rw [hAll]
        exact (h.log level text).received_all
      · exact ih hOld
  | flush h ih => exact ih hPart
  | push h message seq ih =>
      rcases List.prefix_concat_iff.mp hPart with hAll | hOld
      · rw [hAll]
        exact (h.push message seq).received_all
      · exact ih hOld
  | pull h ih =>
      rcases List.prefix_concat_iff.mp hPart with hAll | hOld
      · rw [hAll]
        exact h.pull.received_all
      · exact ih hOld

/-- Every message that was pushed has been announced, with its length. -/
theorem lengths (h : Chronicle channel worker effects slots waiting) :
    (marks true channel worker worker (remembered effects)).map Prod.snd =
      (slots.flatMap Option.toList).map fun message => UInt64.ofNat message.length := by
  induction h with
  | nil => rfl
  | log h level text ih =>
      rw [remembered_append, marks_append, List.map_append, ih]
      exact List.append_nil _
  | flush h ih =>
      rw [ih, List.flatMap_append]
      exact congrArg _ (List.append_nil _).symm
  | push h message seq ih =>
      rw [remembered_append, marks_append, List.map_append, ih, List.flatMap_append,
        List.map_append]
      let stamped : Message T R := { message with seq, source := worker }
      have hSent : marks true channel worker worker [stamped.event true channel worker] =
          [stamped.mark] := marks_event rfl
      congr 1
      change (marks true channel worker worker [stamped.event true channel worker]).map _ = _
      rw [hSent]
      rfl
  | pull h ih =>
      rw [remembered_append, marks_append, List.map_append, ih]
      exact List.append_nil _

end Chronicle

end Pipe

end Dataflow
