import Dataflow.Message
import Dataflow.Trace

/-!
Slots and what takes them. A slot holds one message or nothing; offering it hands the message over.
Whoever is offered a slot may take the message, leave one in the slot, or fail.
-/

namespace Dataflow

/-- The state after an operation that a fault may have cut short. What was done before the fault
stays done. -/
structure Attempt (ε σ : Type) where
  fault : Option ε := none
  state : σ

namespace Attempt

variable {ε σ : Type}

/-- Goes on from the state reached, unless there was a fault. -/
def andThen (first : Attempt ε σ) (next : σ → Attempt ε σ) : Attempt ε σ :=
  match first.fault with
  | none => next first.state
  | some _ => first

end Attempt

/-- What became of an offered slot: its content afterwards, the fault if there was one, and the
state that was reached. -/
structure Offered (ε σ M : Type) extends Attempt ε σ where
  slot : Option M

/-- Makes a message of a time and the records of a buffer, which are moved into it, and offers it. The
second component is the buffer afterwards. If a message was handed back, its container is cleared and
becomes the buffer; if none was, the buffer is a new one; and if the offer failed, it is as the move
has left it, which is empty. -/
def Message.pushAt {ε σ T R : Type}
    (offer : Option (Message T R) → Offered ε σ (Message T R)) (time : T) (buffer : List R) :
    Attempt ε σ × List R :=
  let offered := offer (some { time, data := buffer })
  let buffer := match offered.fault, offered.slot with
    | none, some message => BatchEdit.apply message.data .clear
    | none, none | some _, _ => []
  (offered.toAttempt, buffer)

namespace Message

variable {ε σ T R : Type} (offer : Option (Message T R) → Offered ε σ (Message T R)) (time : T)
  (buffer : List R)

/-- A batch is offered as a message of its time. -/
theorem pushAt_fst : (pushAt offer time buffer).1 = (offer (some { time, data := buffer })).toAttempt :=
  rfl

/-- However the push goes, the buffer is empty after it. -/
theorem pushAt_snd : (pushAt offer time buffer).2 = [] := by
  unfold pushAt
  dsimp only
  split <;> rfl

end Message

/-- The surroundings of the sending half of an edge. `offer` says what a destination does with a
slot, and `note` what a traced event does to the state. Nothing is assumed of either. -/
structure Medium (ε σ M : Type) where
  note : Sink → Event → σ → σ
  offer : Nat → Option M → σ → Offered ε σ M

/-- An end that is not traced notes nothing. -/
def Medium.noteTo {ε σ M : Type} (medium : Medium ε σ M) (sink : Option Sink) (event : Event)
    (state : σ) : σ :=
  match sink with
  | some sink => medium.note sink event state
  | none => state

end Dataflow
