import Dataflow.Hash

/-!
The text whose words are counted. Every line is a function of worker, epoch and line number.
-/

namespace Dataflow.WordCount

def vocabulary : List Bytes :=
  ["stream", "worker", "channel", "record", "batch", "exchange", "pipeline", "timestamp",
    "progress", "frontier", "operator", "edge"].map Bytes.ascii

def space : UInt8 := 32

def draw (n : UInt64) : Bytes :=
  (vocabulary[(Hash.splitMix n).toNat % vocabulary.length]?).getD []

def seed (worker : UInt32) (epoch : UInt64) (line : Nat) : UInt64 :=
  Hash.splitMix ((worker.toUInt64 <<< 40) ^^^ (epoch <<< 20) ^^^ UInt64.ofNat line)

/-- Three to eight words, with a space between neighbours. -/
def lineAt (worker : UInt32) (epoch : UInt64) (line : Nat) : Bytes :=
  let seed := seed worker epoch line
  let words := (List.range (3 + seed.toNat % 6)).map fun w => draw (seed + UInt64.ofNat w)
  [space].intercalate words

def linesOf (worker : UInt32) (epoch : UInt64) (count : Nat) : List Bytes :=
  (List.range count).map (lineAt worker epoch)

def extendFirst (b : UInt8) : List Bytes → List Bytes
  | [] => [[b]]
  | piece :: pieces => (b :: piece) :: pieces

/-- The pieces of a line between its spaces, empty ones included. -/
def pieces : Bytes → List Bytes
  | [] => [[]]
  | b :: rest => if b = space then [] :: pieces rest else extendFirst b (pieces rest)

/-- The words of a line: its non-empty pieces, in order. -/
def wordsOf (line : Bytes) : List Bytes := (pieces line).filter (· ≠ [])

def slice (line : Bytes) (first last : Nat) : Bytes := (line.drop first).take (last - first)

/-- The first position from `first` on at which a line has a space. -/
def nextSpace? (line : Bytes) (first : Nat) : Option Nat :=
  ((line.drop first).findIdx? (· = space)).map (first + ·)

/-- Where the piece that begins at a position ends: at the next space, or with the line. -/
def pieceEnd (line : Bytes) (first : Nat) : Nat :=
  match nextSpace? line first with
  | some next => next
  | none => line.length

theorem le_pieceEnd {line : Bytes} {first : Nat} (h : first ≤ line.length) :
    first ≤ pieceEnd line first := by
  unfold pieceEnd nextSpace?
  cases (line.drop first).findIdx? (· = space) with
  | none => exact h
  | some ahead => exact Nat.le_add_right first ahead

/-- Records made of words, each with its count. -/
abbrev CountedWords := List (Bytes × UInt64)

/-- Goes on splitting a line at a position. A piece without characters gives no record, and the next
piece begins behind the space at which this one ends. -/
def splitFrom (line : Bytes) (first : Nat) (out : CountedWords) : CountedWords :=
  if h : first < line.length then
    let last := pieceEnd line first
    have : first ≤ last := le_pieceEnd (Nat.le_of_lt h)
    splitFrom line (last + 1) (if first < last then out ++ [(slice line first last, 1)] else out)
  else out
termination_by line.length - first

/-- Appends a record of one occurrence for each word of a line. -/
def splitWords (line : Bytes) (out : CountedWords) : CountedWords := splitFrom line 0 out

def countedWords (line : Bytes) : CountedWords := splitWords line []

end Dataflow.WordCount
