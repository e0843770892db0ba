/-!
The proleptic Gregorian calendar with a year zero. Days are numbered from 0001-01-01 on.
-/

namespace Rdf.Calendar

/-- Whether a year has 366 days. -/
def isLeap (year : Int) : Bool := year % 4 = 0 && (year % 100 ≠ 0 || year % 400 = 0)

/-- Lengths of the twelve months. -/
def monthLengths (year : Int) : List Nat :=
  [31, if isLeap year then 29 else 28, 31, 30, 31, 30, 31, 31, 30, 31, 30, 31]

/-- Length of a month, from 1 to 12. -/
def daysInMonth (year : Int) (month : Nat) : Nat := (monthLengths year).getD (month - 1) 0

/-- A day of the calendar. -/
structure Day where
  year : Int
  month : Nat
  day : Nat
deriving DecidableEq

/-- Days before the first of January of the year after `year`. -/
def daysThrough (year : Int) : Int := 365 * year + year / 4 - year / 100 + year / 400

/-- Number of a day. -/
def number (d : Day) : Int :=
  daysThrough (d.year - 1)
    + (((monthLengths d.year).take (d.month - 1)).foldl (· + ·) 0 : Nat) + d.day - 1

/-- Month and day of the month of day `day` of a year, counted from zero, where `month` is the month
of the first of the lengths. -/
def splitMonths : (lengths : List Nat) → (month day : Nat) → Nat × Nat
  | [], month, day => (month, day + 1)
  | length :: lengths, month, day =>
    if day < length then (month, day + 1) else splitMonths lengths (month + 1) (day - length)

/-- Day with a number: cycles of 400 years, then centuries, four-year spans and years. -/
def ofNumber (n : Int) : Day :=
  let cycle := n / 146097
  let inCycle := n % 146097
  let century := min (inCycle / 36524) 3
  let inCentury := inCycle - century * 36524
  let span := inCentury / 1461
  let inSpan := inCentury % 1461
  let step := min (inSpan / 365) 3
  let inYear := inSpan - step * 365
  let year := 400 * cycle + 100 * century + 4 * span + step + 1
  let (month, day) := splitMonths (monthLengths year) 1 inYear.toNat
  ⟨year, month, day⟩

end Rdf.Calendar
