import Dataflow.World

/-!
Programs of workers. A program is a tree of acts on what the workers share; everything between two
acts is the worker's own business. Acts are atomic, so the acts of several workers interleave.
-/

namespace Dataflow

/-- An act that gives nothing back. -/
inductive Effect (M : Type) where
  | log (level : Level) (channel : UInt32) (text : Bytes)
  | note (sink : Sink) (event : Event)
  /-- Puts a message into the mailbox of a worker. -/
  | deliver (channel : UInt32) (target : Nat) (message : M)

/-- `τ` tells apart the kinds of messages and `M` is the type of messages. -/
inductive Program (τ M ε α : Type) : Type where
  | finish (result : α)
  | fail (error : ε)
  | perform (effect : Effect M) (next : Unit → Program τ M ε α)
  /-- Claims a channel of the fabric. The answer is the number of its mailboxes. -/
  | claim (channel : UInt32) (kind : τ) (next : Except ClaimError Nat → Program τ M ε α)
  /-- Takes the oldest message out of the worker's own mailbox. -/
  | take (channel : UInt32) (next : Option M → Program τ M ε α)
  /-- Takes all messages out of the worker's own mailbox. -/
  | drain (channel : UInt32) (next : List M → Program τ M ε α)
  /-- Waits until every worker has come to its meeting or has ended. -/
  | meet (next : Unit → Program τ M ε α)

namespace Program

variable {τ M ε α β : Type}

def andThen : Program τ M ε α → (α → Program τ M ε β) → Program τ M ε β
  | finish result, rest => rest result
  | fail error, _ => fail error
  | perform effect next, rest => perform effect fun u => (next u).andThen rest
  | claim channel kind next, rest => claim channel kind fun answer => (next answer).andThen rest
  | take channel next, rest => take channel fun message => (next message).andThen rest
  | drain channel next, rest => drain channel fun messages => (next messages).andThen rest
  | meet next, rest => meet fun u => (next u).andThen rest

instance : Monad (Program τ M ε) where
  pure := finish
  bind := andThen

def performAll : List (Effect M) → Program τ M ε Unit
  | [] => finish ()
  | effect :: effects => perform effect fun _ => performAll effects

def log (level : Level) (channel : UInt32) (text : Bytes) : Program τ M ε Unit :=
  perform (.log level channel text) fun _ => finish ()

def takeNext (channel : UInt32) : Program τ M ε (Option M) := take channel finish

def takeAll (channel : UInt32) : Program τ M ε (List M) := drain channel finish

def meeting : Program τ M ε Unit := meet finish

end Program

inductive Status (τ M ε α : Type) where
  | running (rest : Program τ M ε α)
  /-- The worker has come to its meeting. -/
  | waiting (rest : Program τ M ε α)
  | returned (result : α)
  | failed (error : ε)

namespace Status

variable {τ M ε α : Type}

def ended : Status τ M ε α → Bool
  | running _ | waiting _ => false
  | returned _ | failed _ => true

def result? : Status τ M ε α → Option α
  | returned result => some result
  | running _ | waiting _ | failed _ => none

def error? : Status τ M ε α → Option ε
  | failed error => some error
  | running _ | waiting _ | returned _ => none

end Status

namespace World

variable {τ M ε α : Type}

/-- What an effect of a worker does to the shared world. -/
def perform (world : World τ M) (worker : Nat) : Effect M → World τ M
  | .log level channel text => world.log level (UInt32.ofNat worker) channel text
  | .note sink event => world.note event sink
  | .deliver channel target message => world.deliver channel target message

/-- A worker that fails leaves a line in the log. -/
def logFailure (world : World τ M) (worker : Nat) : World τ M :=
  world.log .error (UInt32.ofNat worker) 0 (Bytes.ascii "worker failed")

/-- The next act of a worker that is running. -/
def act [DecidableEq τ] (world : World τ M) (worker : Nat) :
    Program τ M ε α → Status τ M ε α × World τ M
  | .finish result => (.returned result, world)
  | .fail error => (.failed error, world.logFailure worker)
  | .perform effect next => (.running (next ()), world.perform worker effect)
  | .claim channel kind next =>
    let (answer, world) := world.claim channel kind worker
    (.running (next answer), world)
  | .take channel next =>
    let (message, world) := world.take channel worker
    (.running (next message), world)
  | .drain channel next =>
    let (messages, world) := world.drain channel worker
    (.running (next messages), world)
  | .meet next => (.waiting (next ()), world)

/-- All acts of a worker up to its end or its next meeting. -/
def run [DecidableEq τ] (worker : Nat) :
    Program τ M ε α → World τ M → Status τ M ε α × World τ M
  | .finish result, world => (.returned result, world)
  | .fail error, world => (.failed error, world.logFailure worker)
  | .perform effect next, world => run worker (next ()) (world.perform worker effect)
  | .claim channel kind next, world =>
    let (answer, world) := world.claim channel kind worker
    run worker (next answer) world
  | .take channel next, world =>
    let (message, world) := world.take channel worker
    run worker (next message) world
  | .drain channel next, world =>
    let (messages, world) := world.drain channel worker
    run worker (next messages) world
  | .meet next, world => (.waiting (next ()), world)

end World

end Dataflow
