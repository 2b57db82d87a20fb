import Dataflow.Execution
import Dataflow.WordCount.Options
import Dataflow.WordCount.Tally
import Dataflow.WordCount.Text

/-!
The word count. Every worker makes its own lines, splits them into words, and sends each word to the
worker that its hash selects; when all workers have sent their words, each counts what it received.
-/

namespace Dataflow.WordCount

abbrev Lines := Message UInt64 Bytes

abbrev Words := Message UInt64 (Bytes × UInt64)

def wordHash (record : Bytes × UInt64) : UInt64 := Hash.fnv record.1

def lineChannel : UInt32 := 0

def wordChannel : UInt32 := 1

/-- Splits every received batch of lines and sends the words at the time of their lines. -/
def forward {ε : Type} : List Lines → Exchange UInt64 (Bytes × UInt64) →
    Program Unit Words ε (Exchange UInt64 (Bytes × UInt64))
  | [], words => return words
  | batch :: batches, words => do
    let data := batch.data.foldl (fun out line => splitWords line out) []
    forward batches (← words.push (some { time := batch.time, data }))

/-- The given number of epochs from `epoch` on: makes the lines of each and forwards their words. -/
def produce {ε : Type} (worker : UInt32) (lines : Nat) : (remaining : Nat) → (epoch : Nat) →
    Pipe UInt64 Bytes → Exchange UInt64 (Bytes × UInt64) →
    Program Unit Words ε (Exchange UInt64 (Bytes × UInt64))
  | 0, _, _, words => return words
  | remaining + 1, epoch, pipe, words => do
    let time := UInt64.ofNat epoch
    let pipe ← pipe.push (some { time, data := linesOf worker time lines })
    let (batches, pipe) ← pipe.drain
    let words ← forward batches words
    produce worker lines remaining (epoch + 1) pipe words

def tallyOf (messages : List Words) : Tally :=
  messages.foldl
    (fun tally message =>
      message.data.foldl (fun tally record => tally.add ⟨message.time, record.1⟩ record.2) tally)
    []

def countedNotice (n : UInt64) : Bytes :=
  Bytes.ascii "counted " ++ Decimal.render n.toNat ++ Bytes.ascii " words"

/-- The program of one worker. It returns the counts of the words that belong to the worker. -/
def body (options : Options) (context : Context) : Program Unit Words WorkerError Tally := do
  let pipe ← Pipe.connect context lineChannel [0]
  let words ← Exchange.connect context wordChannel () [1] wordHash
  let words ← produce context.word options.lines options.epochs 0 pipe words
  let words ← words.push none
  Program.meeting
  let tally := tallyOf (← words.drain)
  Program.log .info wordChannel (countedNotice tally.total)
  return tally

/-- All workers' counts together. Every word belongs to one worker, so the order does not matter. -/
def totals (results : List (Nat × Tally)) : Tally :=
  results.foldl (fun tally result => tally.assignAll result.2) []

def renderEpoch (epoch : UInt64) (tally : Tally) : Bytes :=
  Bytes.ascii "epoch " ++ Decimal.render epoch.toNat ++ Bytes.ascii ": "
    ++ Decimal.render tally.total.toNat ++ Bytes.ascii " words\n"
    ++ tally.flatMap fun entry =>
      Bytes.ascii "  " ++ entry.1.word ++ Bytes.ascii " " ++ Decimal.render entry.2.toNat
        ++ Bytes.ascii "\n"

/-- One paragraph for each epoch in which there were words. -/
def render (tally : Tally) : Bytes :=
  tally.epochs.flatMap fun epoch => renderEpoch epoch (tally.ofEpoch epoch)

/-- What a run of the program leaves behind. -/
structure Output where
  exitCode : UInt32
  stdout : Bytes
  stderr : Bytes

def usageCode : UInt32 := 2

def abortCode : UInt32 := 134

/-- Runs the program on its arguments, its own name not among them. -/
def run (arguments : List Bytes) : Output :=
  match Options.parse arguments with
  | .error error => { exitCode := usageCode, stdout := [], stderr := error.text }
  | .ok options =>
    let launches (_ : Nat) : Option Empty := none
    let completed := execute options.config (some (body options)) launches {}
    let stderr := completed.journal.logger.output
    match completed.error with
    | none => { exitCode := 0, stdout := render (totals completed.results), stderr }
    | some _ => { exitCode := abortCode, stdout := [], stderr }

end Dataflow.WordCount
