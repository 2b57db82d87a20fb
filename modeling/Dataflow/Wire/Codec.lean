import Dataflow.Wire.Reader
import Dataflow.Wire.Writer

/-!
The wire form of single values. Scalars are little-endian blocks of their width, truth values one
byte, texts and sequences are preceded by their length, and a pair is its two components.
-/

namespace Dataflow.Wire

def boolByte (value : Bool) : Bytes := [if value then 1 else 0]

def encode : (t : Ty) → t.Val → Bytes
  | .scalar s, v => scalarBytes s v
  | .bool, v => boolByte v
  | .str, v => sizedBytes v
  | .pair first second, v => encode first v.1 ++ encode second v.2
  | .vec item, v => countBytes v.length ++ v.flatMap (encode item)

/-- A sequence that is being read: how many items it has room for, and its items, the last of them
first. -/
structure Filling (α : Type) where
  room : Nat
  items : List α

namespace Filling

variable {α : Type}

def reserve (room : Nat) : Filling α := { room, items := [] }

/-- Appends an item. A sequence without room for it makes some. -/
def push (out : Filling α) (value : α) : Filling α :=
  { room := max out.room (out.items.length + 1), items := value :: out.items }

end Filling

namespace Reader

variable {α : Type}

/-- A byte above 1 is consumed and refused. -/
def bool : Reader Bool :=
  (scalar .u8).andThen fun b => if b > 1 then fail .badBool else succeed (b == 1)

def remaining : Reader Nat := fun bytes => (.ok bytes.length, bytes)

/-- Reads `n` more items into a sequence. The first item that fails ends the reading, and the
sequence is lost with it. -/
def fill (item : Reader α) : (n : Nat) → Filling α → Reader (Filling α)
  | 0, out => succeed out
  | n + 1, out => item.andThen fun value => fill item n (out.push value)

/-- Exactly `n` items. The room for them is made beforehand, but never for more items than there are
bytes. -/
def items (item : Reader α) (n : Nat) : Reader (List α) :=
  remaining.andThen fun left =>
  (fill item n (.reserve (min n left))).andThen fun out =>
  succeed out.items.reverse

end Reader

def decode : (t : Ty) → Reader t.Val
  | .scalar s => Reader.scalar s
  | .bool => Reader.bool
  | .str => Reader.sized
  | .pair first second =>
    (decode first).andThen fun a => (decode second).andThen fun b => Reader.succeed (a, b)
  | .vec item => Reader.count.andThen fun n => Reader.items (decode item) n

end Dataflow.Wire
