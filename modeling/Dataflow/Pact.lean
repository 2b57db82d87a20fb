import Dataflow.FanOut
import Dataflow.Recorder
import Dataflow.World

/-!
Pacts: how the records of an edge are shared out among workers when the edge is connected.
-/

namespace Dataflow

/-- How the messages of a new edge travel. `worker` is the worker that holds the edge. -/
inductive Pact (T R : Type) where
  /-- Messages stay with the worker. -/
  | pipeline (worker : Nat)
  /-- Records are distributed among all workers by hash. -/
  | exchange (worker : Nat) (hash : R → UInt64) (capacity : Nat)
  /-- A private queue without stamps or reports. -/
  | barePipeline (worker : Nat)
  /-- The mailboxes of a channel without stamps, reports or distribution. -/
  | bareExchange (worker : Nat)
  /-- A private queue between ends of any description. -/
  | loopback (source target index : UInt32)
  /-- Records are distributed among recording destinations. -/
  | recordedExchange (index : UInt32) (hash : R → UInt64) (capacity : Nat) (bank : Recorders T R)
  /-- Messages are stamped for a single recording destination. -/
  | recorded (index target : UInt32) (bank : Recorders T R)

structure Connection (τ T R : Type) where
  kind : τ
  channel : UInt32
  address : Address
  tracing : Tracing
  pact : Pact T R

inductive ConnectError where
  | claim (error : ClaimError)
  | fanOut (error : FanOutError)
  /-- There is no worker of this number. -/
  | noWorker
  deriving DecidableEq

def ConnectError.message? : ConnectError → Option Bytes
  | claim error => some error.message
  | fanOut error => some error.message
  | noWorker => none

def pipelineNotice (address : Address) : Bytes :=
  Bytes.ascii "pipeline channel at " ++ address.render

def exchangeNotice (address : Address) (peers : Nat) : Bytes :=
  Bytes.ascii "exchange channel at " ++ address.render
    ++ Bytes.ascii " (" ++ Decimal.render peers ++ Bytes.ascii " peers)"

/-- What the log says when a worker without a fabric opens a channel to itself. -/
def soleExchangeNotice (address : Address) : Bytes :=
  Bytes.ascii "exchange channel at " ++ address.render ++ Bytes.ascii " (1 peer)"

/-- The sending ends of worker `source`, one towards each of `peers` workers. -/
def Sender.towardsAll (channel source : UInt32) (sink : Option Sink) (peers : Nat) : List Sender :=
  (List.range peers).map fun dst => { channel, source, target := UInt32.ofNat dst, sink }

end Dataflow
