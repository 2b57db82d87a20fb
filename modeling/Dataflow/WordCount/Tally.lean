import Dataflow.Bytes

/-!
Tallies of words by epoch, in the order of epochs and then of words.
-/

namespace Dataflow.WordCount

/-- What is counted: a word in an epoch. -/
structure Key where
  epoch : UInt64
  word : Bytes
  deriving DecidableEq

def Key.precedes (a b : Key) : Bool :=
  a.epoch < b.epoch || (a.epoch == b.epoch && Bytes.precedes a.word b.word)

/-- Keys with their counts. Each key stands once, and the keys ascend. -/
abbrev Tally := List (Key × UInt64)

namespace Tally

/-- Changes the count of a key, which is nothing as long as the key is missing. -/
def alter (key : Key) (change : Option UInt64 → UInt64) : Tally → Tally
  | [] => [(key, change none)]
  | (k, n) :: rest =>
    if key = k then (k, change (some n)) :: rest
    else if key.precedes k then (key, change none) :: (k, n) :: rest
    else (k, n) :: alter key change rest

/-- Adds to the count of a key. Counts are words and start again from zero. -/
def add (tally : Tally) (key : Key) (n : UInt64) : Tally :=
  alter key (fun count => count.getD 0 + n) tally

def assign (tally : Tally) (key : Key) (n : UInt64) : Tally := alter key (fun _ => n) tally

def assignAll (tally other : Tally) : Tally :=
  other.foldl (fun tally entry => tally.assign entry.1 entry.2) tally

def total (tally : Tally) : UInt64 := tally.foldl (fun sum entry => sum + entry.2) 0

def epochs (tally : Tally) : List UInt64 := (tally.map fun entry => entry.1.epoch).eraseDups

def ofEpoch (tally : Tally) (epoch : UInt64) : Tally :=
  tally.filter fun entry => entry.1.epoch == epoch

end Tally

end Dataflow.WordCount
