import Dataflow.Decimal

/-!
Structural paths of the operators that own a channel.
-/

namespace Dataflow

/-- The components from the root down. A channel without an address counts as the empty path. -/
abbrev Address := List UInt64

def Address.ofOption : Option (List UInt64) → Address
  | none => []
  | some path => path

/-- Components in decimal, separated by commas, in square brackets. -/
def Address.render (address : Address) : Bytes :=
  Bytes.ascii "["
    ++ (Bytes.ascii ",").intercalate (address.map fun part => Decimal.render part.toNat)
    ++ Bytes.ascii "]"

end Dataflow
