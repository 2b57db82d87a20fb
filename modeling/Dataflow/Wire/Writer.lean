import Dataflow.Wire.LittleEndian
import Dataflow.Wire.Ty

/-!
Writing into a buffer that can be taken away at any time. Numbers are words, which are cut into bytes
by shifts.
-/

namespace Dataflow.Wire

/-- A length in four bytes. Longer strings and sequences are written whole, but their length is only
right modulo `2 ^ 32`. -/
def countBytes (n : Nat) : Bytes := LittleEndian.encode 4 n

def scalarBytes (s : Scalar) (value : s.Val) : Bytes := LittleEndian.encode s.width (s.bits value)

def sizedBytes (text : Bytes) : Bytes := countBytes text.length ++ text

@[simp] theorem length_scalarBytes (s : Scalar) (value : s.Val) :
    (scalarBytes s value).length = s.width := by
  simp [scalarBytes]

@[simp] theorem length_sizedBytes (text : Bytes) :
    (sizedBytes text).length = 4 + text.length := by
  simp [sizedBytes, countBytes]

/-- The bytes of a word from byte `i` on, lowest first. -/
def spread : (todo i : Nat) → UInt64 → Bytes
  | 0, _, _ => []
  | todo + 1, i, word =>
    ((word >>> UInt64.ofNat (8 * i)) &&& 0xff).toUInt8 :: spread todo (i + 1) word

/-- One call on a writer. -/
inductive Write where
  | scalar (s : Scalar) (value : s.Val)
  | raw (block : Bytes)
  | sized (text : Bytes)
  /-- Takes the bytes written since the last time and leaves the writer empty. -/
  | take

namespace Write

/-- The bytes that a call adds. A value is widened to a word, and the length of a string narrowed to
half a word, before they are cut into bytes. -/
def added : Write → Bytes
  | scalar s value => spread s.width 0 (UInt64.ofNat (s.bits value))
  | raw block => block
  | sized text => spread 4 0 (UInt64.ofNat text.length).toUInt32.toUInt64 ++ text
  | take => []

/-- What a call gave away, if it took the bytes, and what the writer then holds. -/
def apply (held : Bytes) : Write → Option Bytes × Bytes
  | take => (some held, [])
  | call => (none, held ++ call.added)

/-- For each call what it took and the size after it; at the end what is still held. -/
def runAll : List Write → Bytes → List (Option Bytes × Nat) × Bytes
  | [], held => ([], held)
  | call :: calls, held =>
    let (taken, held) := call.apply held
    let (outcomes, final) := runAll calls held
    ((taken, held.length) :: outcomes, final)

end Write

end Dataflow.Wire
