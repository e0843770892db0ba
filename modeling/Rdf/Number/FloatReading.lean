import Rdf.Number.Floating
import Rdf.Number.Integer

/-!
Reading floating point numbers: `inf`, `infinity` and `nan` in any case, or digits with an optional
point and exponent, rounded to the nearest number of the format.
-/

namespace Rdf.FloatFormat

/-- The sign in front, and the rest. -/
def unsign : List Char → Bool × List Char
  | '-' :: cs => (true, cs)
  | '+' :: cs => (false, cs)
  | cs => (false, cs)

/-- Reads the names of what is not finite. -/
def readSpecial? (negative : Bool) (cs : List Char) : Option Floating :=
  let word := cs.map Char.toLower
  if word = "inf".toList ∨ word = "infinity".toList then some (.infinite negative)
  else if word = "nan".toList then some .nan
  else none

/-- Reads the exponent: nothing, or `e` with an optional sign and digits. -/
def readExponent? : List Char → Option Int
  | [] => some 0
  | c :: cs =>
    if c = 'e' ∨ c = 'E' then
      let (negative, ds) := unsign cs
      (Digits.read? ds).map fun n => if negative then -(n : Int) else n
    else none

/-- Digits in front of the point, digits after it, and what follows. -/
def splitPoint (cs : List Char) : List Char × List Char × List Char :=
  match Digits.span cs with
  | (whole, '.' :: rest) => (whole, Digits.span rest)
  | (whole, rest) => (whole, [], rest)

variable (f : FloatFormat)

/-- Number nearest to `n * 10 ^ e`, where `n` has at most `length` digits. Numbers that are too
large or too small for the format are settled by their size alone. -/
def ofScientific (negative : Bool) (n length : Nat) (e : Int) : Floating :=
  if n = 0 then f.zero negative
  else if f.highest + f.precision < e then .infinite negative
  else if e + length < f.lowest then f.zero negative
  else if 0 ≤ e then f.nearest negative (n * Nat.pow 10 e.toNat) 1
  else f.nearest negative n (Nat.pow 10 (-e).toNat)

/-- Reads digits with an optional point and exponent. -/
def readFinite? (negative : Bool) (cs : List Char) : Option Floating :=
  let (whole, places, rest) := splitPoint cs
  let ds := whole ++ places
  if ds = [] then none
  else
    (readExponent? rest).map fun e =>
      f.ofScientific negative (Digits.toNat ds) ds.length (e - places.length)

/-- Reads a number of the format. -/
def read? (cs : List Char) : Option Floating :=
  let (negative, rest) := unsign cs
  (readSpecial? negative rest).orElse fun _ => f.readFinite? negative rest

end Rdf.FloatFormat
