/-!
Hexadecimal digits, in lower case when written and in either case when read.
-/

namespace Rdf.Hex

/-- Whether `c` is a hexadecimal digit. -/
def isDigit (c : Char) : Bool :=
  c.isDigit || ('a' ≤ c && c ≤ 'f') || ('A' ≤ c && c ≤ 'F')

/-- Number of a hexadecimal digit. -/
def value? (c : Char) : Option Nat :=
  if c.isDigit then some (c.toNat - 48)
  else if 'a' ≤ c && c ≤ 'f' then some (c.toNat - 87)
  else if 'A' ≤ c && c ≤ 'F' then some (c.toNat - 55)
  else none

/-- Lower-case digit of a number below sixteen. -/
def digit (d : Nat) : Char := if d < 10 then Char.ofNat (48 + d) else Char.ofNat (87 + d)

/-- The last `count` hexadecimal digits of `n`, most significant first. -/
def ofNat : (count n : Nat) → List Char
  | 0, _ => []
  | count + 1, n => ofNat count (n / 16) ++ [digit (n % 16)]

/-- Number denoted by a text of hexadecimal digits only; the empty text denotes zero. -/
def toNat? (cs : List Char) : Option Nat :=
  cs.foldlM (fun n c => (value? c).map (16 * n + ·)) 0

end Rdf.Hex
