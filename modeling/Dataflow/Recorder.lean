import Dataflow.Message

/-!
Destinations that answer every push after a fixed plan and record what they were offered. They stand
in for transports that hand messages back or fail.
-/

namespace Dataflow

/-- What a destination does with a slot. -/
inductive Response where
  /-- Takes the message and leaves the slot empty. -/
  | take
  /-- Leaves the message in the slot. -/
  | handBack
  /-- Fails without recording anything; the slot is left alone. -/
  | refuse
  deriving DecidableEq

/-- A bank of recording destinations. -/
structure Recorders (T R : Type) where
  /-- The response of a destination to its n-th push, counted from one. Empty slots count. -/
  plan : Nat → Nat → Response
  /-- How often each destination has been pushed to. -/
  pushes : List Nat
  /-- What was recorded, with the destination, in order. An empty slot is recorded as such. -/
  received : Array (Nat × Option (Message T R)) := #[]

namespace Recorders

variable {T R : Type}

def create (peers : Nat) (plan : Nat → Nat → Response) : Recorders T R where
  plan
  pushes := List.replicate peers 0

/-- The response of one destination, with the bank afterwards. -/
def answer (bank : Recorders T R) (dst : Nat) (slot : Option (Message T R)) :
    Response × Recorders T R :=
  let pushes := bank.pushes.modify dst (· + 1)
  let response := bank.plan dst (pushes.getD dst 0)
  let received := match response with
    | .refuse => bank.received
    | .take | .handBack => bank.received.push (dst, slot)
  (response, { bank with pushes, received })

end Recorders

end Dataflow
