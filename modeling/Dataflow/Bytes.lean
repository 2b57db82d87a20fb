/-!
Byte strings. Arguments, record texts, log lines and encoded messages are all lists of bytes; the
fixed words of the program's own output are written as ASCII literals.
-/

namespace Dataflow

abbrev Bytes := List UInt8

namespace Bytes

/-- One byte per character of an ASCII literal. A character above 255 is cut to its low byte, so
this is not an encoding of arbitrary text. -/
def ascii (text : String) : Bytes := text.toList.map fun c => c.toNat.toUInt8

/-- The bytes before the first zero byte. Arguments and shown texts end there. -/
def untilZero (text : Bytes) : Bytes := text.takeWhile (· != 0)

/-- A text without a zero byte is kept whole. -/
theorem untilZero_of_notMem {text : Bytes} (h : 0 ∉ text) : text.untilZero = text := by
  induction text with
  | nil => rfl
  | cons b rest ih =>
    rw [List.mem_cons, not_or] at h
    have hb : (b != 0) = true := bne_iff_ne.2 (Ne.symm h.1)
    simp only [untilZero, List.takeWhile_cons, hb, if_true]
    exact congrArg (b :: ·) (ih h.2)

/-- Lexicographic comparison by byte value; a proper initial part comes first. -/
def precedes : Bytes → Bytes → Bool
  | _, [] => false
  | [], _ :: _ => true
  | a :: as, b :: bs => a < b || (a == b && precedes as bs)

/-- No text comes before itself. -/
theorem precedes_irrefl (text : Bytes) : precedes text text = false := by
  induction text with
  | nil => rfl
  | cons b rest ih => simp [precedes, ih]

end Bytes

end Dataflow
