/-!
Decimal digits: natural numbers written without leading zeros, and runs of digits read back.
-/

namespace Rdf.Digits

/-- Digit character of a number below ten. -/
def digit (d : Nat) : Char := Char.ofNat (48 + d)

/-- Number of a digit character. -/
def value (c : Char) : Nat := c.toNat - 48

/-- Decimal form of `n`, most significant digit first and without leading zeros. -/
def ofNat (n : Nat) : List Char :=
  if n < 10 then [digit n] else ofNat (n / 10) ++ [digit (n % 10)]
termination_by n
decreasing_by omega

/-- Decimal form of `n`, filled up with zeros to at least `width` digits. -/
def padded (width n : Nat) : List Char :=
  let digits := ofNat n
  List.replicate (width - digits.length) '0' ++ digits

/-- Number denoted by a run of digits, most significant first. -/
def toNat (cs : List Char) : Nat := cs.foldl (fun n c => 10 * n + value c) 0

/-- Number denoted by a non-empty text of digits only. -/
def read? : List Char → Option Nat
  | [] => none
  | cs => if cs.all Char.isDigit then some (toNat cs) else none

/-- Longest run of digits in front, and what follows it. -/
def span (cs : List Char) : List Char × List Char :=
  (cs.takeWhile Char.isDigit, cs.dropWhile Char.isDigit)

/-- Decimal text of an integer, with a minus sign in front of negative ones. -/
def ofInt : Int → List Char
  | .ofNat n => ofNat n
  | .negSucc n => '-' :: ofNat (n + 1)

/-- Decimal text of a natural number. -/
def text (n : Nat) : String := String.ofList (ofNat n)

end Rdf.Digits
