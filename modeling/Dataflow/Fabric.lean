import Dataflow.Bytes

/-!
Mailboxes shared by the workers of one process. A channel has one mailbox for each worker. The
channel comes into being with the first claim on it, and every worker may claim it once.
-/

namespace Dataflow

inductive FabricError where
  | noWorkers
  | tooManyWorkers
  deriving DecidableEq

def FabricError.message : FabricError → Bytes
  | noWorkers => Bytes.ascii "ProcessFabric: zero workers"
  | tooManyWorkers => Bytes.ascii "ProcessFabric: too many workers"

/-- Why a worker cannot be given access to a fabric. -/
inductive AccessError where
  | noFabric
  | workerOutOfRange
  deriving DecidableEq

def AccessError.message : AccessError → Bytes
  | noFabric => Bytes.ascii "ProcessAllocator: null fabric"
  | workerOutOfRange => Bytes.ascii "ProcessAllocator: worker index out of range"

inductive ClaimError where
  | workerOutOfRange
  /-- The channel carries messages of another kind. -/
  | otherKind
  /-- The worker has claimed the channel before. -/
  | alreadyClaimed
  deriving DecidableEq

def ClaimError.message : ClaimError → Bytes
  | workerOutOfRange => Bytes.ascii "ProcessFabric: worker index out of range"
  | otherKind => Bytes.ascii "ProcessFabric: channel reused with a different message type"
  | alreadyClaimed => Bytes.ascii "ProcessFabric: channel already allocated by this worker"

/-- A channel of messages of one kind. -/
structure Channel (τ M : Type) where
  kind : τ
  /-- One mailbox for each worker, the oldest message first. -/
  boxes : List (List M)
  /-- The workers that have claimed the channel. -/
  claimants : List Nat := []

/-- The channels of a group of workers. `τ` tells apart the kinds of messages. -/
structure Fabric (τ M : Type) where
  workers : Nat
  channels : List (UInt32 × Channel τ M) := []

namespace Fabric

variable {τ M : Type}

/-- Workers are numbered by 32-bit words. -/
def maxWorkers : Nat := UInt32.size - 1

def create (workers : Nat) : Except FabricError (Fabric τ M) :=
  if workers = 0 then .error .noWorkers
  else if maxWorkers < workers then .error .tooManyWorkers
  else .ok { workers }

def channel? (fabric : Fabric τ M) (channel : UInt32) : Option (Channel τ M) :=
  fabric.channels.lookup channel

/-- Changes one channel, if it exists. -/
def modify (fabric : Fabric τ M) (channel : UInt32) (change : Channel τ M → Channel τ M) :
    Fabric τ M :=
  { fabric with
    channels := fabric.channels.map fun entry =>
      if entry.1 = channel then (entry.1, change entry.2) else entry }

/-- A change reaches the channel it is meant for and no other. -/
theorem channel?_modify (fabric : Fabric τ M) (c d : UInt32)
    (change : Channel τ M → Channel τ M) :
    (fabric.modify c change).channel? d =
      if c = d then (fabric.channel? d).map change else fabric.channel? d := by
  obtain ⟨workers, channels⟩ := fabric
  simp only [modify, channel?]
  induction channels with
  | nil => simp
  | cons entry rest ih =>
    obtain ⟨e, found⟩ := entry
    by_cases he : e = c <;> by_cases hd : d = e <;> grind

/-- Gives a worker the mailboxes of a channel. A claim that is refused changes nothing. -/
def claim [DecidableEq τ] (fabric : Fabric τ M) (channel : UInt32) (kind : τ) (worker : Nat) :
    Except ClaimError (Fabric τ M) :=
  if fabric.workers ≤ worker then .error .workerOutOfRange
  else
    match fabric.channel? channel with
    | none =>
      let boxes := List.replicate fabric.workers []
      let opened : Channel τ M := { kind, boxes, claimants := [worker] }
      .ok { fabric with channels := (channel, opened) :: fabric.channels }
    | some found =>
      if found.kind ≠ kind then .error .otherKind
      else if worker ∈ found.claimants then .error .alreadyClaimed
      else .ok (fabric.modify channel fun c => { c with claimants := worker :: c.claimants })

/-- The mailbox of a worker; empty if there is no such channel or worker. -/
def box (fabric : Fabric τ M) (channel : UInt32) (worker : Nat) : List M :=
  ((fabric.channel? channel).bind fun c => c.boxes[worker]?).getD []

/-- Puts a message behind all others in the mailbox of a worker. The worker need not have claimed
the channel. -/
def deliver (fabric : Fabric τ M) (channel : UInt32) (worker : Nat) (message : M) : Fabric τ M :=
  fabric.modify channel fun c => { c with boxes := c.boxes.modify worker (· ++ [message]) }

def take (fabric : Fabric τ M) (channel : UInt32) (worker : Nat) : Option M × Fabric τ M :=
  ((fabric.box channel worker).head?,
    fabric.modify channel fun c => { c with boxes := c.boxes.modify worker List.tail })

def drain (fabric : Fabric τ M) (channel : UInt32) (worker : Nat) : List M × Fabric τ M :=
  (fabric.box channel worker,
    fabric.modify channel fun c => { c with boxes := c.boxes.modify worker fun _ => [] })

def access (fabric : Option (Fabric τ M)) (worker : Nat) : Except AccessError (Fabric τ M) :=
  match fabric with
  | none => .error .noFabric
  | some fabric => if worker < fabric.workers then .ok fabric else .error .workerOutOfRange

end Fabric

end Dataflow
