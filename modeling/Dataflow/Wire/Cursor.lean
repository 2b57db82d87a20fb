import Dataflow.Wire.LittleEndian
import Dataflow.Wire.Ty

/-!
A buffer that is read from the front. The position is a word, as is the size, and what is left is
found by a subtraction that wraps. Whoever looks at a byte has to have checked that it is there: a
look outside the buffer has no outcome, which is not the same as a failure.
-/

namespace Dataflow.Wire

inductive ReadError where
  /-- Fewer bytes are left than the value needs. -/
  | truncated
  /-- A truth value must be the byte 0 or 1. -/
  | badBool
  /-- A message was read and bytes were left over. -/
  | trailing
  deriving DecidableEq

def ReadError.message : ReadError → Bytes
  | truncated => Bytes.ascii "WireReader: truncated buffer"
  | badBool => Bytes.ascii "WireCodec: bad bool byte"
  | trailing => Bytes.ascii "decode_message: trailing bytes"

structure Cursor where
  buffer : Bytes
  position : UInt64

namespace Cursor

def start (buffer : Bytes) : Cursor := ⟨buffer, 0⟩

def size (c : Cursor) : UInt64 := UInt64.ofNat c.buffer.length

/-- The number of unread bytes. Behind the end of the buffer this would be a huge number. -/
def remaining (c : Cursor) : UInt64 := c.size - c.position

def atEnd (c : Cursor) : Bool := c.size ≤ c.position

/-- Moves on without a look at the bytes that are passed. -/
def advance (c : Cursor) (n : UInt64) : Cursor := { c with position := c.position + n }

def byte? (c : Cursor) : Option UInt8 := c.buffer[c.position.toNat]?

/-- The `n` bytes from the position on, if all of them lie in the buffer. -/
def block? (c : Cursor) (n : UInt64) : Option Bytes :=
  let last := c.position + n
  if c.position ≤ last ∧ last ≤ c.size then
    some ((c.buffer.take last.toNat).drop c.position.toNat)
  else none

/-- Puts the next bytes into a word whose lower `i` bytes are already in place. -/
def gather : (todo i : Nat) → UInt64 → Cursor → Option (UInt64 × Cursor)
  | 0, _, word, c => some (word, c)
  | todo + 1, i, word, c =>
    match c.byte? with
    | none => none
    | some b => gather todo (i + 1) (word ||| (b.toUInt64 <<< UInt64.ofNat (8 * i))) (c.advance 1)

/-- An unsigned number of at most eight bytes, lowest first. -/
def word (width : Nat) (c : Cursor) : Option (Except ReadError UInt64 × Cursor) :=
  if UInt64.ofNat width > c.remaining then some (.error .truncated, c)
  else (gather width 0 0 c).map fun (word, next) => (.ok word, next)

/-- A value of fixed width, narrowed from a word. -/
def scalar (s : Scalar) (c : Cursor) : Option (Except ReadError s.Val × Cursor) :=
  (c.word s.width).map fun (result, next) => (result.map fun word => s.ofBits word.toNat, next)

/-- A copy of the next `n` bytes. The buffer is not looked at if there is nothing to copy. -/
def raw (n : UInt64) (c : Cursor) : Option (Except ReadError Bytes × Cursor) :=
  if n > c.remaining then some (.error .truncated, c)
  else if n = 0 then some (.ok [], c.advance n)
  else (c.block? n).map fun block => (.ok block, c.advance n)

/-- A byte string behind its length. The length stays consumed if the string is cut off. -/
def sized (c : Cursor) : Option (Except ReadError Bytes × Cursor) :=
  match c.word 4 with
  | none => none
  | some (.error error, next) => some (.error error, next)
  | some (.ok word, next) =>
    let n := word.toUInt32.toUInt64
    if n > next.remaining then some (.error .truncated, next)
    else (next.block? n).map fun block => (.ok block, next.advance n)

end Cursor

end Dataflow.Wire
