import Dataflow.Wire.Cursor

/-!
Reading from a buffer. A reader takes the unread bytes and gives back a value or an error, in either
case with the bytes that are still unread, so that reading may go on after a failure. Single calls
run on a cursor and can also be seen as readers.
-/

namespace Dataflow.Wire

abbrev Reader (α : Type) : Type := Bytes → Except ReadError α × Bytes

namespace Reader

variable {α β : Type}

def succeed (value : α) : Reader α := fun bytes => (.ok value, bytes)

def fail (error : ReadError) : Reader α := fun bytes => (.error error, bytes)

/-- Reads on from where the first reader stopped, unless it failed. -/
def andThen (first : Reader α) (next : α → Reader β) : Reader β := fun bytes =>
  match first bytes with
  | (.ok value, rest) => next value rest
  | (.error error, rest) => (.error error, rest)

/-- The next `n` bytes. If fewer are left, none is consumed. -/
def raw (n : Nat) : Reader Bytes := fun bytes =>
  let block := bytes.take n
  if block.length = n then (.ok block, bytes.drop n) else (.error .truncated, bytes)

/-- A value of fixed width. A failure consumes nothing. -/
def scalar (s : Scalar) : Reader s.Val :=
  (raw s.width).andThen fun block => succeed (s.ofBits (LittleEndian.decode block))

/-- The four-byte number in front of texts and sequences. -/
def count : Reader Nat := (raw 4).andThen fun block => succeed (LittleEndian.decode block)

/-- A byte string behind its length. If the string is cut off, its length is consumed. -/
def sized : Reader Bytes := count.andThen raw

theorem raw_of_le {n : Nat} {bytes : Bytes} (h : n ≤ bytes.length) :
    raw n bytes = (.ok (bytes.take n), bytes.drop n) := by
  simp [raw, Nat.min_eq_left h]

theorem raw_of_lt {n : Nat} {bytes : Bytes} (h : bytes.length < n) :
    raw n bytes = (.error .truncated, bytes) := by
  simp [raw]
  omega

/-- A block that stands in front is read whole. -/
theorem raw_append (block rest : Bytes) : raw block.length (block ++ rest) = (.ok block, rest) := by
  simp [raw]

end Reader

/-- One call on a reader. -/
inductive Read where
  | scalar (s : Scalar)
  | raw (n : Nat)
  | sized

namespace Read

@[reducible] def Result : Read → Type
  | scalar s => s.Val
  | raw _ => Bytes
  | sized => Bytes

/-- The call on a buffer with a position. A number of bytes is a word. -/
def run : (call : Read) → Cursor → Option (Except ReadError call.Result × Cursor)
  | scalar s => Cursor.scalar s
  | raw n => Cursor.raw (UInt64.ofNat n)
  | sized => Cursor.sized

/-- The call on the unread bytes alone. -/
def reader : (call : Read) → Reader call.Result
  | scalar s => Reader.scalar s
  | raw n => Reader.raw n
  | sized => Reader.sized

/-- What a call gave, and where the cursor stood before and after it. -/
structure Step where
  call : Read
  before : Cursor
  result : Except ReadError call.Result
  after : Cursor

/-- Makes the calls in turn. Each goes on where the one before it stopped, even if that one failed.
A call without an outcome ends the steps. -/
def steps : List Read → Cursor → List Step
  | [], _ => []
  | call :: calls, before =>
    match call.run before with
    | none => []
    | some (result, after) => ⟨call, before, result, after⟩ :: steps calls after

/-- What a call gave, and how many bytes were then unread. -/
structure Outcome where
  call : Read
  result : Except ReadError call.Result
  remaining : Nat

def Step.outcome (step : Step) : Outcome := ⟨step.call, step.result, step.after.remaining.toNat⟩

def runAll (calls : List Read) (buffer : Bytes) : List Outcome :=
  (steps calls (Cursor.start buffer)).map Step.outcome

end Read

end Dataflow.Wire
