import Dataflow.Bytes

/-!
Messages and the batches of records they carry.
-/

namespace Dataflow

/-- The unit of transfer along an edge. `seq` and `source` belong to the transport: they stay zero
until the message is stamped on its way into a channel. -/
structure Message (T R : Type) where
  time : T
  data : List R
  seq : UInt64 := 0
  source : UInt32 := 0
  deriving DecidableEq

namespace Message

variable {T R : Type}

def length (message : Message T R) : Nat := message.data.length

def timed (message : Message T R) : List (T × R) := message.data.map fun r => (message.time, r)

end Message

/-- What is left of a record in its old place once it has been handed on. Records are moved and not
copied: texts and sequences leave an empty husk, plain words stay as they were. -/
class Husk (R : Type) where
  husk : R → R

export Husk (husk)

instance : Husk UInt64 := ⟨id⟩

instance {R : Type} : Husk (List R) := ⟨fun _ => []⟩

instance {A B : Type} [Husk A] [Husk B] : Husk (A × B) := ⟨fun p => (husk p.1, husk p.2)⟩

inductive BatchEdit (R : Type) where
  | clear
  | push (record : R)

/-- A pushed record goes behind those already there. -/
def BatchEdit.apply {R : Type} (batch : List R) : BatchEdit R → List R
  | clear => []
  | push record => batch ++ [record]

end Dataflow
