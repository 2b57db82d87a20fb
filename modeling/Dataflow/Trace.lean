import Dataflow.Log

/-!
Message tracing. Every message that crosses the end of a channel is an event; a sink decides whether
the event is kept in memory or written to the text log. The journal of a run holds both.
-/

namespace Dataflow

/-- One message crossing an end of a channel. -/
structure Event where
  isSend : Bool := false
  channel : UInt32 := 0
  source : UInt32 := 0
  target : UInt32 := 0
  seq : UInt64 := 0
  length : UInt64 := 0
  deriving DecidableEq

/-- The words of an event in the text log. Its channel is not among them: it heads the line. -/
def Event.describe (event : Event) : Bytes :=
  (if event.isSend then Bytes.ascii "send" else Bytes.ascii "recv")
    ++ Bytes.ascii " src=" ++ Decimal.render event.source.toNat
    ++ Bytes.ascii " dst=" ++ Decimal.render event.target.toNat
    ++ Bytes.ascii " seq=" ++ Decimal.render event.seq.toNat
    ++ Bytes.ascii " len=" ++ Decimal.render event.length.toNat

/-- Where the end of a channel reports its events. -/
inductive Sink where
  /-- The events of all ends with this sink are kept in one list. -/
  | memory
  /-- The text log, at trace level, under the number of a worker. -/
  | text (worker : UInt32)
  deriving DecidableEq

/-- How the ends of an edge are to be traced. -/
inductive Tracing where
  | off
  | memory
  | text
  deriving DecidableEq

/-- The sink of an end that belongs to `worker`. -/
def Tracing.sink (worker : UInt32) : Tracing → Option Sink
  | off => none
  | memory => some .memory
  | text => some (.text worker)

inductive SinkError where
  /-- Tracing was asked for with nowhere to report. -/
  | absent
  deriving DecidableEq

def SinkError.message : SinkError → Bytes
  | absent => Bytes.ascii "MessagesLogger: null sink"

/-- A traced end needs a sink. -/
def Sink.require : Option Sink → Except SinkError Sink
  | some sink => .ok sink
  | none => .error .absent

/-- All that is observed about a run: its text log and its remembered events. No message and no
decision depends on it. -/
structure Journal where
  logger : Log.Logger := {}
  events : Array Event := #[]

namespace Journal

def log (journal : Journal) (level : Level) (worker channel : UInt32) (text : Bytes) : Journal :=
  { journal with logger := journal.logger.log level worker channel text }

def note (journal : Journal) (event : Event) : Sink → Journal
  | .memory => { journal with events := journal.events.push event }
  | .text worker => journal.log .trace worker event.channel event.describe

def setLevel (journal : Journal) (level : Level) : Journal :=
  { journal with logger := { journal.logger with level } }

def attach (journal : Journal) (attached : Bool) : Journal :=
  { journal with logger := { journal.logger with attached } }

theorem note_memory_events (journal : Journal) (event : Event) :
    (journal.note event .memory).events.toList = journal.events.toList ++ [event] := by
  simp [note]

@[simp] theorem note_text_events (journal : Journal) (event : Event) (worker : UInt32) :
    (journal.note event (.text worker)).events = journal.events :=
  rfl

end Journal

end Dataflow
