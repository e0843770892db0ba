import Rdf.Bytes
import Rdf.Text.Hex
import Rdf.Text.Order

/-!
128-bit identifiers: their bytes, their two texts and their order.
-/

namespace Rdf

/-- A 128-bit identifier. -/
structure Uuid where
  bits : BitVec 128
deriving DecidableEq, Hashable

namespace Uuid

/-- The identifier with number `n`, taken modulo `2 ^ 128`. -/
def ofNat (n : Nat) : Uuid := ⟨BitVec.ofNat 128 n⟩

/-- The bits as a number. -/
def toNat (u : Uuid) : Nat := u.bits.toNat

instance : Inhabited Uuid := ⟨ofNat 0⟩

/-- The sixteen bytes, most significant first. -/
def bytes (u : Uuid) : List UInt8 := Bytes.ofNat 16 u.toNat

/-- The 32 hexadecimal digits. -/
def digits (u : Uuid) : List Char := Hex.ofNat 32 u.toNat

/-- Text of 32 digits without separators. -/
def simple (u : Uuid) : String := String.ofList u.digits

/-- Text in five groups of 8, 4, 4, 4 and 12 digits. -/
def hyphenated (u : Uuid) : String :=
  let ds := u.digits
  let group (start count : Nat) := (ds.drop start).take count
  String.ofList (group 0 8 ++ '-' :: group 8 4 ++ '-' :: group 12 4 ++ '-' :: group 16 4
    ++ '-' :: group 20 12)

/-- Order by number, the same as the order of the bytes. -/
def compare (a b : Uuid) : Ordering := Text.compareNat a.toNat b.toNat

end Uuid

end Rdf
