import Rdf.Text.Digits

/-!
Binary floating point numbers of a format: their bit patterns, and the number nearest to a ratio.
-/

namespace Rdf

/-- A binary format. Finite numbers are `m * 2 ^ q` with `m` of at most `precision` bits and `q`
from `lowest` to `highest`. -/
structure FloatFormat where
  precision : Nat
  lowest : Int
  highest : Int
  width : Nat

/-- The 32-bit format. -/
def FloatFormat.single : FloatFormat := ⟨24, -149, 104, 32⟩

/-- The 64-bit format. -/
def FloatFormat.double : FloatFormat := ⟨53, -1074, 971, 64⟩

/-- A floating point number. A finite one is `significand * 2 ^ exponent`, with the exponent as low
as its format has it. -/
inductive Floating where
  | nan
  | infinite (negative : Bool)
  | finite (negative : Bool) (significand : Nat) (exponent : Int)
deriving DecidableEq, Inhabited

namespace FloatFormat

variable (f : FloatFormat)

/-- Zero. -/
def zero (negative : Bool) : Floating := .finite negative 0 f.lowest

/-- Weight of the lowest bit of the exponent field. -/
def hidden : Nat := Nat.pow 2 (f.precision - 1)

/-- Exponent field of infinities and of what is no number. -/
def lastField : Nat := (f.highest - f.lowest + 2).toNat

/-- Bit pattern of a number. -/
def toBits : Floating → Nat
  | .nan => f.lastField * f.hidden + f.hidden / 2
  | .infinite negative => signed negative (f.lastField * f.hidden)
  | .finite negative m q =>
    signed negative (if m < f.hidden then m else (q - f.lowest).toNat * f.hidden + m)
where
  /-- Puts the sign in front of the other bits. -/
  signed (negative : Bool) (bits : Nat) : Nat :=
    if negative then Nat.pow 2 (f.width - 1) + bits else bits

/-- Number with a bit pattern. -/
def ofBits (bits : Nat) : Floating :=
  let negative := Nat.pow 2 (f.width - 1) ≤ bits
  let rest := bits % Nat.pow 2 (f.width - 1)
  let field := rest / f.hidden
  let m := rest % f.hidden
  if field = f.lastField then if m = 0 then .infinite negative else .nan
  else if field = 0 then .finite negative m f.lowest
  else .finite negative (f.hidden + m) (f.lowest + field - 1)

/-- Whole number nearest to `num / den`, a half going to the even neighbour. -/
def roundRatio (num den : Nat) : Nat :=
  let whole := num / den
  let rest := 2 * (num % den)
  if rest < den ∨ (rest = den ∧ whole % 2 = 0) then whole else whole + 1

/-- Numerator and denominator of `num / den / 2 ^ q`. -/
def scaled (num den : Nat) (q : Int) : Nat × Nat :=
  if 0 ≤ q then (num, den * Nat.pow 2 q.toNat) else (num * Nat.pow 2 (-q).toNat, den)

/-- Greatest `e` with `2 ^ e ≤ num / den`, for positive numbers. -/
def floorLog (num den : Nat) : Int :=
  let e : Int := (Nat.log2 num : Int) - Nat.log2 den
  let (a, b) := scaled num den e
  if b ≤ a then e else e - 1

/-- Number nearest to `num / den`, a half going to the even neighbour. -/
def nearest (negative : Bool) (num den : Nat) : Floating :=
  if num = 0 then f.zero negative
  else
    let q := max f.lowest (floorLog num den - (f.precision - 1 : Nat))
    let (a, b) := scaled num den q
    let m := roundRatio a b
    let (m, q) := if m = 2 * f.hidden then (f.hidden, q + 1) else (m, q)
    if f.highest < q then .infinite negative else .finite negative m q

end FloatFormat

/-- Whether two numbers are equal: zeros of either sign are; what is no
number equals nothing. -/
def Floating.sameNumber : Floating → Floating → Bool
  | .infinite a, .infinite b => a = b
  | .finite a m q, .finite b m' q' => (m = 0 && m' = 0) || (a = b && m = m' && q = q')
  | _, _ => false

end Rdf
