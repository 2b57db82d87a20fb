import Dataflow.Bytes

/-!
Decimal numerals as byte strings. `render` writes the shortest numeral of a number. `read?` accepts
a non-empty run of digits and nothing else, leading zeros included, as long as its value fits 64
bits. Digits are read into a word one by one, and a number that does not fit is noticed when the
word would wrap.
-/

namespace Dataflow.Decimal

/-- Zero is the single digit `0`; no other numeral starts with it. -/
def render (n : Nat) : Bytes := (Nat.toDigits 10 n).map fun c => c.toNat.toUInt8

def isDigit (b : UInt8) : Bool := 48 ≤ b && b ≤ 57

/-- The number spelled by a run of digits. This does not check that they are digits. -/
def value (digits : Bytes) : Nat := digits.foldl (fun n d => 10 * n + (d.toNat - 48)) 0

/-- Words have 64 bits: a numeral at or above this bound is refused. -/
def bound : Nat := UInt64.size

/-- A word with one more digit behind it, unless the product or the sum wraps. -/
def extend? (word : UInt64) (digit : UInt8) : Option UInt64 :=
  let tens := word * 10
  let sum := tens + (digit - 48).toUInt64
  if tens / 10 = word ∧ tens ≤ sum then some sum else none

/-- Puts digits behind a number, up to the first byte that is none, and gives back what follows.
The digits of a number that no word can hold are passed all the same. -/
def scanDigits : Option UInt64 → Bytes → Option UInt64 × Bytes
  | word?, [] => (word?, [])
  | word?, b :: rest =>
    if isDigit b then scanDigits (word?.bind fun word => extend? word b) rest
    else (word?, b :: rest)

/-- The number in front of a text, if there is one and a word can hold it, and what follows. -/
def scan (text : Bytes) : Option UInt64 × Bytes :=
  if text.head?.any isDigit then scanDigits (some 0) text else (none, text)

def read? (text : Bytes) : Option Nat :=
  match scan text with
  | (some word, []) => some word.toNat
  | _ => none

end Dataflow.Decimal
