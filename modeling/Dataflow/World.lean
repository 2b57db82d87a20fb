import Dataflow.Address
import Dataflow.Fabric
import Dataflow.Trace

/-!
What the workers of one process share: the fabric with its mailboxes, and the journal.
-/

namespace Dataflow

structure World (τ M : Type) where
  fabric : Fabric τ M
  journal : Journal := {}

namespace World

variable {τ M : Type}

def log (world : World τ M) (level : Level) (worker channel : UInt32) (text : Bytes) : World τ M :=
  { world with journal := world.journal.log level worker channel text }

def note (world : World τ M) (event : Event) (sink : Sink) : World τ M :=
  { world with journal := world.journal.note event sink }

/-- Gives a worker the mailboxes of a channel. The answer is their number. -/
def claim [DecidableEq τ] (world : World τ M) (channel : UInt32) (kind : τ) (worker : Nat) :
    Except ClaimError Nat × World τ M :=
  match world.fabric.claim channel kind worker with
  | .ok fabric => (.ok fabric.workers, { world with fabric })
  | .error error => (.error error, world)

def deliver (world : World τ M) (channel : UInt32) (worker : Nat) (message : M) : World τ M :=
  { world with fabric := world.fabric.deliver channel worker message }

def take (world : World τ M) (channel : UInt32) (worker : Nat) : Option M × World τ M :=
  let (message, fabric) := world.fabric.take channel worker
  (message, { world with fabric })

def drain (world : World τ M) (channel : UInt32) (worker : Nat) : List M × World τ M :=
  let (messages, fabric) := world.fabric.drain channel worker
  (messages, { world with fabric })

end World

end Dataflow
