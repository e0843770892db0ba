import Rdf.Number.Integer
import Rdf.Number.Words

/-!
Decimal numbers of any size: reading them, their normal form, the plain notation, and equality.
-/

namespace Rdf

/-- The number `unscaled * 10 ^ (-scale)`. -/
structure Decimal where
  unscaled : Int
  scale : Int
deriving DecidableEq, Inhabited

namespace Decimal

/-- Whether a character begins the exponent. -/
def startsExponent (c : Char) : Bool := c = 'e' || c = 'E'

/-- Reads the exponent, with the character that begins it, or nothing. -/
def readExponent? : List Char → Option Int
  | [] => some 0
  | _ :: cs => Integer.Range.wide.read? cs

/-- Reads digits with at most one point. All characters beside the point make up the unscaled
number, and those after it, underscores apart, are counted. -/
def readPointed? (cs : List Char) : Option (Int × Nat) :=
  let lead := cs.takeWhile (· ≠ '.')
  let trail := (cs.dropWhile (· ≠ '.')).drop 1
  (Integer.read? (lead ++ trail)).map fun n => (n, (trail.filter (· ≠ '_')).length)

/-- Reads a number in plain or scientific notation. -/
def read? (cs : List Char) : Option Decimal := do
  let base := cs.takeWhile (!startsExponent ·)
  let exponent ← readExponent? (cs.dropWhile (!startsExponent ·))
  let (unscaled, places) ← if base = [] then none else readPointed? base
  let scale : Int := places - exponent
  if Integer.Range.long.contains scale then some ⟨unscaled, scale⟩ else none

/-- Takes the zeros off the end of a number, and counts them down from `scale`. -/
def stripZeros (n : Nat) (scale : Int) : Nat × Int :=
  if n ≠ 0 ∧ n % 10 = 0 then stripZeros (n / 10) (scale - 1) else (n, scale)
termination_by n
decreasing_by omega

/-- The same number with an unscaled part that has no zero at the end; zero has scale zero. -/
def normalized (d : Decimal) : Decimal :=
  if d.unscaled = 0 then ⟨0, 0⟩
  else
    let (n, scale) := stripZeros d.unscaled.natAbs d.scale
    ⟨if d.unscaled < 0 then -(n : Int) else n, scale⟩

/-- Digits of `n` with a point before the last `places` of them, and zeros where digits lack. -/
def pointed (n places : Nat) : List Char :=
  let ds := Digits.padded (places + 1) n
  let whole := ds.length - places
  ds.take whole ++ '.' :: ds.drop whole

/-- Plain notation, without exponent. -/
def plain (d : Decimal) : List Char :=
  let n := d.unscaled.natAbs
  let body :=
    if d.scale ≤ 0 then
      if n = 0 then ['0'] else Digits.ofNat n ++ List.replicate d.scale.natAbs '0'
    else pointed n d.scale.toNat
  if d.unscaled < 0 then '-' :: body else body

/-- Canonical text: the plain notation of the normal form. -/
def canonical (d : Decimal) : List Char := d.normalized.plain

/-- Whether two decimals are the same number. -/
def sameNumber (a b : Decimal) : Bool := a.normalized = b.normalized

/-- Equality with a decimal that has no more places, from the words of the unscaled numbers. No
answer if the signs differ, if twenty places or more lie between the scales, if the first number is
too short, or if a product of words is too long. -/
def equalsInWords? (fine coarse : Decimal) : Option Bool :=
  let places := (fine.scale - coarse.scale).toNat
  if places < 20 ∧ fine.unscaled.sign = coarse.unscaled.sign then
    let power := Nat.pow 10 places
    let a := fine.unscaled.natAbs
    let b := coarse.unscaled.natAbs
    if a.log2 < b.log2 + power.log2 then none
    else Words.isMultiple? (UInt64.ofNat power) 0 (Words.ofNat a) (Words.ofNat b)
  else none

/-- Equality of decimals: as their words tell, or else as numbers. -/
def equals (a b : Decimal) : Bool :=
  let inWords := if a.scale < b.scale then equalsInWords? b a else equalsInWords? a b
  inWords.getD (a.sameNumber b)

end Decimal

end Rdf
