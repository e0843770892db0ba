/-!
Bytes of numbers, most significant first.
-/

namespace Rdf.Bytes

/-- The last `count` base-256 digits of `n`, most significant first. -/
def ofNat : (count n : Nat) → List UInt8
  | 0, _ => []
  | count + 1, n => ofNat count (n / 256) ++ [UInt8.ofNat (n % 256)]

/-- Number with the given base-256 digits. -/
def toNat (bytes : List UInt8) : Nat := bytes.foldl (fun n b => 256 * n + b.toNat) 0

/-- UTF-8 form of a text. -/
def utf8 (s : String) : List UInt8 := s.toUTF8.data.toList

end Rdf.Bytes
