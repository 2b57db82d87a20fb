import Dataflow.Bytes

/-!
Hashes that decide where a record goes. They depend on nothing but the record, so a record keeps
its destination from one run to the next.
-/

namespace Dataflow.Hash

/-- Adds an odd constant, then alternates xor-shifts with multiplications by odd constants. Every
step can be undone, so distinct words have distinct images. -/
def splitMix (x : UInt64) : UInt64 :=
  let x := x + 0x9e3779b97f4a7c15
  let x := (x ^^^ (x >>> 30)) * 0xbf58476d1ce4e5b9
  let x := (x ^^^ (x >>> 27)) * 0x94d049bb133111eb
  x ^^^ (x >>> 31)

def fnvStart : UInt64 := 1469598103934665603

def fnvPrime : UInt64 := 1099511628211

/-- Folds one byte into the hash: xor first, then multiply. -/
def fnvStep (h : UInt64) (b : UInt8) : UInt64 := (h ^^^ b.toUInt64) * fnvPrime

def fnv (bytes : Bytes) : UInt64 := bytes.foldl fnvStep fnvStart

/-- Hashing goes on from the hash of what stands in front. -/
theorem fnv_append (first second : Bytes) :
    fnv (first ++ second) = second.foldl fnvStep (fnv first) :=
  List.foldl_append

/-- The worker that owns a hash. Changing this rule would move records that earlier runs have
placed. With no peers there is no owner, and the answer carries no meaning. -/
def destination (hash : UInt64) (peers : Nat) : Nat := hash.toNat % peers

/-- The destination is one of the peers. -/
theorem destination_lt (hash : UInt64) {peers : Nat} (h : 0 < peers) :
    destination hash peers < peers :=
  Nat.mod_lt _ h

end Dataflow.Hash
