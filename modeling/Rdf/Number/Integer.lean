import Rdf.Text.Digits

/-!
Reading integers: of a given range with one optional sign, and of any size with underscores between
the digits.
-/

namespace Rdf.Integer

/-- The integers from `lowest` to `highest`. -/
structure Range where
  lowest : Int
  highest : Int
deriving DecidableEq

namespace Range

def byte : Range := ⟨-128, 127⟩

def short : Range := ⟨-32768, 32767⟩

def int : Range := ⟨-2147483648, 2147483647⟩

def long : Range := ⟨-9223372036854775808, 9223372036854775807⟩

def unsignedByte : Range := ⟨0, 255⟩

def unsignedShort : Range := ⟨0, 65535⟩

def unsignedInt : Range := ⟨0, 4294967295⟩

def unsignedLong : Range := ⟨0, 18446744073709551615⟩

/-- The integers of 128 bits. -/
def wide : Range :=
  ⟨-170141183460469231731687303715884105728, 170141183460469231731687303715884105727⟩

/-- Whether the range holds `n`. -/
def contains (r : Range) (n : Int) : Bool := r.lowest ≤ n && n ≤ r.highest

/-- The sign in front, if it is a minus, and the rest. A minus counts as a sign only where the range
has negative numbers. -/
def unsign (r : Range) : List Char → Bool × List Char
  | '+' :: cs => (false, cs)
  | '-' :: cs => if r.lowest < 0 then (true, cs) else (false, '-' :: cs)
  | cs => (false, cs)

/-- Reads an integer of the range: at most one sign, then digits. -/
def read? (r : Range) (cs : List Char) : Option Int :=
  let (negative, ds) := r.unsign cs
  match Digits.read? ds with
  | some n =>
    let value : Int := if negative then -(n : Int) else n
    if r.contains value then some value else none
  | none => none

end Range

/-- Reads digits with underscores anywhere but in front. -/
def readSpaced? : List Char → Option Nat
  | '_' :: _ => none
  | cs => Digits.read? (cs.filter (· ≠ '_'))

/-- Reads a natural number of any size, with an optional plus sign. -/
def readNatural? : List Char → Option Nat
  | '+' :: cs => readSpaced? cs
  | cs => readSpaced? cs

/-- Reads an integer of any size. No plus sign may follow the minus sign. -/
def read? : List Char → Option Int
  | '-' :: '+' :: _ => none
  | '-' :: cs => (readNatural? cs).map fun n => -(n : Int)
  | cs => (readNatural? cs).map fun n => (n : Int)

end Rdf.Integer
