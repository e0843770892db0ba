import Rdf.Number.Floating

/-!
The shortest decimal digits of a floating point number: of all decimals that round to it, one with
the fewest digits, and of those the nearest.
-/

namespace Rdf

/-- The decimal `digits * 10 ^ exponent`. -/
structure ShortDecimal where
  digits : Nat
  exponent : Int
deriving DecidableEq

namespace FloatFormat

/-- A positive ratio, an interval of ratios around it over the same denominator, and whether the
interval holds its ends. -/
structure Neighbourhood where
  below : Nat
  value : Nat
  above : Nat
  denominator : Nat
  closed : Bool

variable (f : FloatFormat)

/-- The ratios that round to `m * 2 ^ q`, in quarters of the last place. Below a power of two the
numbers lie twice as close. -/
def neighbourhood (m : Nat) (q : Int) : Neighbourhood :=
  let low := if m = f.hidden ∧ f.lowest < q then 1 else 2
  let (num, den) := scaled 1 4 (-q)
  ⟨(4 * m - low) * num, 4 * m * num, (4 * m + 2) * num, den, m % 2 = 0⟩

namespace Neighbourhood

/-- Whether `n * 10 ^ k` lies in the interval. -/
def holds (r : Neighbourhood) (n : Nat) (k : Int) : Bool :=
  let (point, scale) :=
    if 0 ≤ k then (n * Nat.pow 10 k.toNat * r.denominator, 1)
    else (n * r.denominator, Nat.pow 10 (-k).toNat)
  let low := r.below * scale
  let high := r.above * scale
  if r.closed then low ≤ point && point ≤ high else low < point && point < high

/-- Multiple of `10 ^ k` in the interval that is nearest to the value, if there is one. -/
def onGrid? (r : Neighbourhood) (k : Int) : Option ShortDecimal :=
  let (num, den) :=
    if 0 ≤ k then (r.value, r.denominator * Nat.pow 10 k.toNat)
    else (r.value * Nat.pow 10 (-k).toNat, r.denominator)
  let n := num / den
  let (near, far) := if 2 * (num % den) < den then (n, n + 1) else (n + 1, n)
  if near ≠ 0 ∧ r.holds near k then some ⟨near, k⟩
  else if far ≠ 0 ∧ r.holds far k then some ⟨far, k⟩
  else none

/-- First grid with a multiple in the interval, from `10 ^ k` on downwards. -/
def search (r : Neighbourhood) : (steps : Nat) → (k : Int) → Option ShortDecimal
  | 0, _ => none
  | steps + 1, k => (r.onGrid? k).orElse fun _ => r.search steps (k - 1)

end Neighbourhood

/-- Power of ten above the number `m * 2 ^ q`, for positive `m`. -/
def topExponent (m : Nat) (q : Int) : Int := ((Nat.log2 m : Int) + q) * 30103 / 100000 + 1

/-- Shortest digits of `m * 2 ^ q`, for positive `m`. Twenty grids are more than any number of the
two formats takes. -/
def shortest (m : Nat) (q : Int) : ShortDecimal :=
  ((f.neighbourhood m q).search 20 (topExponent m q)).getD ⟨m, 0⟩

end FloatFormat

/-- Plain notation of a decimal, without exponent and without point where it is whole. -/
def ShortDecimal.plain (d : ShortDecimal) : List Char :=
  if 0 ≤ d.exponent then Digits.ofNat d.digits ++ List.replicate d.exponent.toNat '0'
  else
    let places := (-d.exponent).toNat
    let ds := Digits.padded (places + 1) d.digits
    let whole := ds.length - places
    ds.take whole ++ '.' :: ds.drop whole

/-- Text of a number: the shortest digits in plain notation, with names for what is not finite. -/
def FloatFormat.print (f : FloatFormat) : Floating → List Char
  | .nan => "NaN".toList
  | .infinite false => "INF".toList
  | .infinite true => "-INF".toList
  | .finite negative m q =>
    let body := if m = 0 then ['0'] else (f.shortest m q).plain
    if negative then '-' :: body else body

end Rdf
