import Rdf.Number.Integer
import Rdf.Temporal.Calendar

/-!
Points on the time line with an optional offset, and the dates and times made of them.
-/

namespace Rdf

/-- Ticks of a second. -/
def ticksPerSecond : Int := 1000000000000000000

/-- A point on the time line, in ticks since 0001-01-01T00:00:00 at offset zero, and the offset in
minutes at which it was given. -/
structure Moment where
  instant : Int
  offset : Option Int
deriving DecidableEq, Inhabited

/-- A date with a time of day. -/
structure DateTime where
  moment : Moment
deriving DecidableEq, Inhabited

/-- A date, given by its first moment. -/
structure Date where
  moment : Moment
deriving DecidableEq, Inhabited

/-- A time of day, placed on a fixed day. -/
structure TimeOfDay where
  moment : Moment
deriving DecidableEq, Inhabited

namespace Moment

/-- The moment of a day at an hour, a minute and some ticks, if it is within 128 bits: first without
the ticks, then with them. -/
def ofFields? (day : Calendar.Day) (hour minute : Nat) (ticks : Nat) (offset : Option Int) :
    Option Moment :=
  let seconds := 86400 * Calendar.number day + 3600 * hour + 60 * (minute - offset.getD 0)
  let start := seconds * ticksPerSecond
  let instant := start + ticks
  if Integer.Range.wide.contains start ∧ Integer.Range.wide.contains instant then
    some ⟨instant, offset⟩
  else none

/-- Whole seconds at the place of the offset. A part of a second belongs to the second that has
begun, before the year one as well. -/
def localSeconds (m : Moment) : Int := m.instant / ticksPerSecond + 60 * m.offset.getD 0

/-- Day at the place of the offset. -/
def day (m : Moment) : Calendar.Day := Calendar.ofNumber (m.localSeconds / 86400)

/-- Hour of the day at the place of the offset. -/
def hour (m : Moment) : Nat := (m.localSeconds % 86400 / 3600).toNat

/-- Minute of the hour at the place of the offset. -/
def minute (m : Moment) : Nat := (m.localSeconds % 3600 / 60).toNat

/-- Ticks since the minute began. -/
def ticks (m : Moment) : Nat := (m.instant % (60 * ticksPerSecond)).toNat

end Moment

end Rdf
