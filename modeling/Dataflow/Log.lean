import Dataflow.Decimal

/-!
The text log. A logger has a level, an output that may be absent, and the lines written so far.
-/

namespace Dataflow

/-- A severity. Any byte may stand here; only six have names. -/
structure Level where
  code : UInt8
  deriving DecidableEq

namespace Level

def error : Level := ⟨0⟩
def warn : Level := ⟨1⟩
def info : Level := ⟨2⟩
def debug : Level := ⟨3⟩
def trace : Level := ⟨4⟩

/-- As the level of a logger this silences everything. -/
def off : Level := ⟨255⟩

def name (level : Level) : Bytes :=
  if level = error then Bytes.ascii "ERROR"
  else if level = warn then Bytes.ascii "WARN"
  else if level = info then Bytes.ascii "INFO"
  else if level = debug then Bytes.ascii "DEBUG"
  else if level = trace then Bytes.ascii "TRACE"
  else if level = off then Bytes.ascii "OFF"
  else Bytes.ascii "UNKNOWN"

/-- Whether a logger set to `configured` writes a message of severity `severity`. -/
def enables (configured severity : Level) : Bool :=
  configured != off && severity.code ≤ configured.code

/-- A log that is off writes nothing. -/
theorem off_enables (severity : Level) : off.enables severity = false := by
  simp [enables]

end Level

namespace Log

structure Line where
  level : Level
  worker : UInt32
  channel : UInt32
  text : Bytes
  deriving DecidableEq

/-- The longest text that a line holds. The words in brackets and the line feed do not count. -/
def textLimit : Nat := 1023

/-- Texts end at their first zero byte and are cut at the limit. -/
def clip (text : Bytes) : Bytes := text.untilZero.take textLimit

def Line.render (line : Line) : Bytes :=
  Bytes.ascii "[" ++ line.level.name
    ++ Bytes.ascii "][worker=" ++ Decimal.render line.worker.toNat
    ++ Bytes.ascii "][channel=" ++ Decimal.render line.channel.toNat
    ++ Bytes.ascii "] " ++ line.text ++ Bytes.ascii "\n"

/-- Lines are in the order in which they were written. -/
structure Logger where
  level : Level := .off
  /-- Whether there is an output. Without one every line is lost. -/
  attached : Bool := true
  lines : Array Line := #[]

namespace Logger

def log (logger : Logger) (level : Level) (worker channel : UInt32) (text : Bytes) : Logger :=
  if logger.level.enables level && logger.attached then
    { logger with lines := logger.lines.push ⟨level, worker, channel, clip text⟩ }
  else logger

def output (logger : Logger) : Bytes := logger.lines.toList.flatMap Line.render

@[simp] theorem log_level (logger : Logger) (level : Level) (worker channel : UInt32)
    (text : Bytes) : (logger.log level worker channel text).level = logger.level := by
  unfold log
  split <;> rfl

/-- A line below the level leaves no trace. -/
theorem log_of_not_enabled {logger : Logger} {level : Level}
    (h : logger.level.enables level = false) (worker channel : UInt32) (text : Bytes) :
    logger.log level worker channel text = logger := by
  simp [log, h]

end Logger

end Log

end Dataflow
