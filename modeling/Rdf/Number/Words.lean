/-!
Natural numbers in words of 32 bits, and the comparison of one number with a multiple of another
that never builds the multiple.
-/

namespace Rdf.Words

/-- The words of a number, the lowest first. The highest is not zero. -/
def ofNat (n : Nat) : List UInt32 :=
  if n = 0 then [] else UInt32.ofNat n :: ofNat (n / UInt32.size)
termination_by n
decreasing_by exact Nat.div_lt_self (Nat.pos_of_ne_zero ‹_›) (by decide)

/-- Whether the first words are those of the second number times `factor`, plus `carry`. There is no
answer where the product of a word and the factor needs more than 64 bits. The sum of a product and
the carry is taken modulo 2^64. -/
def isMultiple? (factor : UInt64) : (carry : UInt64) → List UInt32 → List UInt32 → Option Bool
  | carry, [], [] => some (carry = 0)
  | _, [], _ :: _ => some false
  | carry, a :: as, [] =>
    if a = carry.toUInt32 then isMultiple? factor 0 as [] else some false
  | carry, a :: as, b :: bs =>
    if b.toNat * factor.toNat < UInt64.size then
      let sum := b.toUInt64 * factor + carry
      if a = sum.toUInt32 then isMultiple? factor (sum >>> 32) as bs else some false
    else none

end Rdf.Words
