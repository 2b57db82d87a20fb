import Dataflow.FanOut

/-!
The configuration of a run and its command line. Arguments are read from left to right; a flag that
takes a value takes the next argument, whatever that looks like.
-/

namespace Dataflow

structure Config where
  workers : Nat := 1
  /-- The level of the logger. -/
  level : Level := .off
  /-- The number of records that wait for a destination before they are sent. -/
  capacity : Nat := FanOut.defaultCapacity
  /-- Whether every worker reports its messages to the text log. -/
  trace : Bool := false
  deriving DecidableEq

inductive Flag where
  | workers
  | logLevel
  | exchangeCapacity
  | traceMessages
  deriving DecidableEq

def Flag.name : Flag → Bytes
  | workers => Bytes.ascii "--workers"
  | logLevel => Bytes.ascii "--log-level"
  | exchangeCapacity => Bytes.ascii "--exchange-capacity"
  | traceMessages => Bytes.ascii "--trace-messages"

def Flag.all : List Flag := [workers, logLevel, exchangeCapacity, traceMessages]

def Flag.ofName? (argument : Bytes) : Option Flag := all.find? fun flag => flag.name = argument

inductive ArgumentError where
  | missingValue (flag : Flag)
  /-- The value is no decimal number below `Decimal.bound`. -/
  | badNumber (flag value : Bytes)
  | notPositive (flag : Flag)
  | unknownLevel (name : Bytes)
  | unknownArgument (argument : Bytes)
  deriving DecidableEq

/-- The words for an error, with the offending text just as it was given. -/
def ArgumentError.wording : ArgumentError → Bytes
  | missingValue flag => Bytes.ascii "parse_fabric_args: missing value for " ++ flag.name
  | badNumber flag value =>
    Bytes.ascii "parse_fabric_args: bad value for " ++ flag ++ Bytes.ascii ": '" ++ value
      ++ Bytes.ascii "'"
  | notPositive flag =>
    Bytes.ascii "parse_fabric_args: " ++ flag.name ++ Bytes.ascii " must be positive"
  | unknownLevel name => Bytes.ascii "parse_log_level: unknown level '" ++ name ++ Bytes.ascii "'"
  | unknownArgument argument => Bytes.ascii "parse_fabric_args: unknown argument " ++ argument

/-- The text of an error. Whatever would follow a zero byte of an offending text is lost. -/
def ArgumentError.message (error : ArgumentError) : Bytes := error.wording.untilZero

/-- The level of a name as it is given on the command line, in lower case. -/
def Level.ofName? (name : Bytes) : Option Level :=
  if name = Bytes.ascii "error" then some error
  else if name = Bytes.ascii "warn" then some warn
  else if name = Bytes.ascii "info" then some info
  else if name = Bytes.ascii "debug" then some debug
  else if name = Bytes.ascii "trace" then some trace
  else if name = Bytes.ascii "off" then some off
  else none

def Level.read (name : Bytes) : Except ArgumentError Level :=
  match ofName? name with
  | some level => .ok level
  | none => .error (.unknownLevel name)

def readSize (flag value : Bytes) : Except ArgumentError Nat :=
  match Decimal.read? value with
  | some n => .ok n
  | none => .error (.badNumber flag value)

def readPositive (flag : Flag) (value : Bytes) : Except ArgumentError Nat :=
  match readSize flag.name value with
  | .ok n => if n = 0 then .error (.notPositive flag) else .ok n
  | .error error => .error error

namespace Config

/-- Applies a flag with its value. The value of a flag that takes none is ignored. -/
def set (config : Config) (flag : Flag) (value : Bytes) : Except ArgumentError Config :=
  match flag with
  | .workers => (readPositive flag value).map fun workers => { config with workers }
  | .logLevel => (Level.read value).map fun level => { config with level }
  | .exchangeCapacity => (readPositive flag value).map fun capacity => { config with capacity }
  | .traceMessages => .ok { config with trace := true }

/-- What was made of a command line: the configuration or the first error, and the arguments left to
the caller up to there. -/
structure Parsed where
  result : Except ArgumentError Config
  rest : List Bytes

/-- Reads arguments on top of a configuration. An argument that is no flag is collected behind
`rest`, or refused if arguments are not to be collected. -/
def parseFrom (collect : Bool) : List Bytes → Config → List Bytes → Parsed
  | [], config, rest => ⟨.ok config, rest⟩
  | argument :: arguments, config, rest =>
    match Flag.ofName? argument with
    | some .traceMessages => parseFrom collect arguments { config with trace := true } rest
    | some flag =>
      match arguments with
      | [] => ⟨.error (.missingValue flag), rest⟩
      | value :: arguments =>
        match config.set flag value with
        | .ok config => parseFrom collect arguments config rest
        | .error error => ⟨.error error, rest⟩
    | none =>
      if collect then parseFrom collect arguments config (rest ++ [argument])
      else ⟨.error (.unknownArgument argument), rest⟩

def parse (collect : Bool) (arguments : List Bytes) : Parsed := parseFrom collect arguments {} []

/-- Of a configuration only the level concerns the journal. -/
def apply (config : Config) (journal : Journal) : Journal := journal.setLevel config.level

end Config

end Dataflow
