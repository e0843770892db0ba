import Rdf.Temporal.Reading

/-!
Texts of dates and times: at least four digits for the year, two for the other fields, a fraction
without zeros at its end, and `Z` for offset zero.
-/

namespace Rdf

namespace TemporalText

/-- Year, month and day. -/
def printDay (d : Calendar.Day) : List Char :=
  let year := Digits.padded 4 d.year.natAbs
  (if d.year < 0 then '-' :: year else year) ++ '-' :: Digits.padded 2 d.month
    ++ '-' :: Digits.padded 2 d.day

/-- Seconds with the fraction, if there is one. -/
def printSeconds (ticks : Nat) : List Char :=
  let whole := Digits.padded 2 (ticks / ticksPerSecond.toNat)
  let part := ticks % ticksPerSecond.toNat
  if part = 0 then whole else whole ++ '.' :: dropZeros (Digits.padded 18 part)

/-- Hour, minute and seconds. -/
def printClock (m : Moment) : List Char :=
  Digits.padded 2 m.hour ++ ':' :: Digits.padded 2 m.minute ++ ':' :: printSeconds m.ticks

/-- The offset, if there is one. -/
def printOffset : Option Int → List Char
  | none => []
  | some minutes =>
    if minutes = 0 then ['Z']
    else
      (if minutes < 0 then '-' else '+') :: Digits.padded 2 (minutes.natAbs / 60)
        ++ ':' :: Digits.padded 2 (minutes.natAbs % 60)

end TemporalText

open TemporalText

/-- Text of a date with a time of day. -/
def DateTime.print (t : DateTime) : List Char :=
  printDay t.moment.day ++ 'T' :: printClock t.moment ++ printOffset t.moment.offset

/-- Text of a date. -/
def Date.print (d : Date) : List Char := printDay d.moment.day ++ printOffset d.moment.offset

/-- Text of a time of day. -/
def TimeOfDay.print (t : TimeOfDay) : List Char :=
  printClock t.moment ++ printOffset t.moment.offset

/-- Whether two moments are the same instant, and both or neither have an offset. -/
def Moment.sameInstant (a b : Moment) : Bool :=
  a.offset.isSome = b.offset.isSome && a.instant = b.instant

end Rdf
