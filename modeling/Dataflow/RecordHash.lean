import Dataflow.Hash
import Dataflow.Wire.Ty

/-!
Hashes of typed records. A named hash fits some record types and not others.
-/

namespace Dataflow

open Wire (Ty Scalar)

namespace Hash

/-- Mixes a whole number, widened with its sign. Distinct values of a type have distinct hashes. -/
def mix (s : Scalar) (value : s.Val) : UInt64 := splitMix (s.widen value)

def mixBool (value : Bool) : UInt64 := splitMix (if value then 1 else 0)

/-- The hash that keys of a type have: texts byte by byte, whole numbers and truth values mixed.
Other types make no keys. -/
def key? : (t : Ty) → Option (t.Val → UInt64)
  | .scalar s => if s.isIntegral then some (mix s) else none
  | .bool => some mixBool
  | .str => some fnv
  | .pair _ _ | .vec _ => none

/-- The hash of keyed records, which are pairs: that of the key alone. -/
def keyed? : (t : Ty) → Option (t.Val → UInt64)
  | .pair first _ => (key? first).map fun h record => h record.1
  | .scalar _ | .bool | .str | .vec _ => none

end Hash

/-- The hashes by which a channel may distribute its records. -/
inductive RecordHash where
  /-- A whole number itself. -/
  | identity
  /-- The hash of the record as a key. -/
  | mixed
  /-- The length of a text. -/
  | length
  /-- The hash of the first component. -/
  | keyed
  | constant (hash : UInt64)

/-- The hash as a function on records of the type, if it fits them. -/
def RecordHash.on? : RecordHash → (t : Ty) → Option (t.Val → UInt64)
  | identity, .scalar s => if s.isIntegral then some s.widen else none
  | mixed, t => Hash.key? t
  | length, .str => some fun text => UInt64.ofNat text.length
  | keyed, t => Hash.keyed? t
  | constant hash, _ => some fun _ => hash
  | _, _ => none

/-- The hash as a function on values of every type. A value that it does not fit has hash zero. -/
def RecordHash.total (hash : RecordHash) (record : Wire.Datum) : UInt64 :=
  match hash.on? record.1 with
  | some apply => apply record.2
  | none => 0

end Dataflow
