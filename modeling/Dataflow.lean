import Dataflow.Bytes
import Dataflow.Decimal
import Dataflow.Hash
import Dataflow.Address
import Dataflow.RecordHash
import Dataflow.Message
import Dataflow.Log
import Dataflow.Trace
import Dataflow.Wire.LittleEndian
import Dataflow.Wire.Ty
import Dataflow.Wire.Cursor
import Dataflow.Wire.Reader
import Dataflow.Wire.Writer
import Dataflow.Wire.Codec
import Dataflow.Wire.Envelope
import Dataflow.Medium
import Dataflow.Endpoint
import Dataflow.FanOut
import Dataflow.Fabric
import Dataflow.Fabric.Bench
import Dataflow.World
import Dataflow.Recorder
import Dataflow.Edge
import Dataflow.Session.Basic
import Dataflow.Session.Step
import Dataflow.Config
import Dataflow.Pact
import Dataflow.Launch
import Dataflow.Worker.Program
import Dataflow.Worker.Channel
import Dataflow.Execution
import Dataflow.Supervision
import Dataflow.Worker.Relay
import Dataflow.WordCount.Text
import Dataflow.WordCount.Tally
import Dataflow.WordCount.Options
import Dataflow.WordCount.Run
import Dataflow.Main
import Dataflow.Proofs.Wire.Envelope
import Dataflow.Proofs.Wire.Counts
import Dataflow.Proofs.Wire.Reading
import Dataflow.Proofs.Wire.Script
import Dataflow.Proofs.Address
import Dataflow.Proofs.Trace
import Dataflow.Proofs.Hash.Mixing
import Dataflow.Proofs.Hash.Texts
import Dataflow.Proofs.Hash.Published
import Dataflow.Proofs.Config.CommandLine
import Dataflow.Proofs.Config.Size
import Dataflow.Proofs.Fabric.Mailbox
import Dataflow.Proofs.FanOut.Morphism
import Dataflow.Proofs.FanOut.Ledger
import Dataflow.Proofs.FanOut.Lockstep
import Dataflow.Proofs.FanOut.Cuts
import Dataflow.Proofs.FanOut.Losses
import Dataflow.Proofs.FanOut.Stamps
import Dataflow.Proofs.Endpoint.Numbering
import Dataflow.Proofs.Worker.Program
import Dataflow.Proofs.Worker.Agent
import Dataflow.Proofs.Traffic.Basic
import Dataflow.Proofs.Traffic.Books
import Dataflow.Proofs.Traffic.Agent
import Dataflow.Proofs.Traffic.Invariant
import Dataflow.Proofs.Traffic.Conservation
import Dataflow.Proofs.Session.Frame
import Dataflow.Proofs.Session.Pipeline
import Dataflow.Proofs.Delivery
import Dataflow.Proofs.FanOut.Bounds
import Dataflow.Proofs.Session.Quiet
import Dataflow.Proofs.Session.Conduit
import Dataflow.Proofs.Session.Stable
import Dataflow.Proofs.Session.Worker
import Dataflow.Proofs.Network.Basic
import Dataflow.Proofs.Network.Chronicle
import Dataflow.Proofs.Medium.Audit
import Dataflow.Proofs.Network.Agent
import Dataflow.Proofs.Network.Invariant
import Dataflow.Proofs.Network.Tracing
import Dataflow.Proofs.FanOut.Batching
import Dataflow.Proofs.Fabric.History
import Dataflow.Proofs.Fabric.Isolation
import Dataflow.Proofs.Session.Isolation
import Dataflow.Proofs.Isolation
import Dataflow.Proofs.Execution.Completion
import Dataflow.Proofs.Supervision.Outcome
import Dataflow.Proofs.Gathering.Run
import Dataflow.Proofs.WordCount.Count
import Dataflow.Proofs.WordCount.Worker
import Dataflow.Proofs.WordCount.Options
import Dataflow.Proofs.Fabric.Reservation
import Dataflow.Proofs.Session.Reservation
import Dataflow.Proofs.Session.FailedConnect
