import Dataflow.Address
import Dataflow.Proofs.Decimal

/-! The text of an address. A comma is no part of a numeral, so the commas between the brackets cut
the text into the numerals it was made of. The empty path alone leaves nothing between the
brackets, since every numeral has a digit. -/
namespace Dataflow.Address

def comma : UInt8 := 44

def numerals (address : Address) : List Bytes :=
  address.map fun part => Decimal.render part.toNat

/-- The components that a text names. What stands between the brackets is cut at its commas; an
empty piece names none. -/
def readBack (text : Bytes) : List UInt64 :=
  ((text.tail.dropLast.splitOn comma).filter (· ≠ [])).map fun piece =>
    UInt64.ofNat (Decimal.value piece)

/-- Numerals are free of the separator. -/
theorem comma_notMem_of_mem_numerals {address : Address} {numeral : Bytes}
    (h : numeral ∈ address.numerals) : comma ∉ numeral := by
  obtain ⟨part, -, rfl⟩ := List.mem_map.mp h
  intro hComma
  exact absurd (Decimal.isDigit_of_mem_render hComma) (by decide)

theorem ne_nil_of_mem_numerals {address : Address} {numeral : Bytes}
    (h : numeral ∈ address.numerals) : numeral ≠ [] := by
  obtain ⟨part, -, rfl⟩ := List.mem_map.mp h
  exact Decimal.render_ne_nil _

/-- Between the brackets stand the numerals, separated by commas. -/
theorem tail_dropLast_render (address : Address) :
    address.render.tail.dropLast = [comma].intercalate address.numerals :=
  List.dropLast_concat

/-- The pieces between the commas are the numerals. Nothing at all is cut into a single empty piece,
which no path has, so dropping it gives the empty path back. -/
theorem filter_splitOn_intercalate (address : Address) :
    (([comma].intercalate address.numerals).splitOn comma).filter (· ≠ []) = address.numerals := by
  cases address with
  | nil => rfl
  | cons part rest =>
      have hSome : numerals (part :: rest) ≠ [] := List.cons_ne_nil _ _
      rw [List.splitOn_intercalate comma (fun _ => comma_notMem_of_mem_numerals) hSome,
        List.filter_eq_self]
      intro numeral hNumeral
      exact decide_eq_true (ne_nil_of_mem_numerals hNumeral)

/-- The text of an address tells the address. -/
theorem readBack_render (address : Address) : readBack address.render = address := by
  have hPart (part : UInt64) :
      UInt64.ofNat (Decimal.value (Decimal.render part.toNat)) = part := by
    rw [Decimal.value_render, UInt64.ofNat_toNat]
  rw [readBack, tail_dropLast_render, filter_splitOn_intercalate, numerals, List.map_map]
  exact (List.map_congr_left fun part _ => hPart part).trans (List.map_id address)

/-- The text of an address tells its components and nothing else: the number of components, each of
them over the whole width of a word, and their order. A missing address reads like the empty path. -/
theorem text_tells_components (address other : Option (List UInt64)) :
    (ofOption address).render = (ofOption other).render ↔ address.getD [] = other.getD [] := by
  have hPath (address : Option (List UInt64)) : ofOption address = address.getD [] := by
    cases address with
    | none => rfl
    | some path => rfl
  rw [hPath, hPath]
  constructor
  · intro hText
    calc address.getD []
      _ = readBack (Address.render (address.getD [])) := (readBack_render _).symm
      _ = readBack (Address.render (other.getD [])) := by rw [hText]
      _ = other.getD [] := readBack_render _
  · intro hPaths
    rw [hPaths]

/-- Two components are not one of their digits together, and no component is not a zero. -/
example : [none, some [0], some [1, 20], some [120]].map (render <| ofOption ·) =
    [Bytes.ascii "[]", Bytes.ascii "[0]", Bytes.ascii "[1,20]", Bytes.ascii "[120]"] := by
  decide +kernel

end Dataflow.Address
